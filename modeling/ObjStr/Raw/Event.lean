/-
  ObjStr.Raw.Event — the event stream (`event.rs`): one line for each event, keys as they are.

  A text is the list of its characters: the only byte that the reader looks for is the newline, which no other
  character's encoding contains. A reader takes lines with their newline (`read_line`), and skips those
  that are no event.
  - `received_eq_iff`: the events come out as they went in if and only if every key fits on a line: it is
    not empty, holds no newline and does not end in white space.
  - `a_key_with_a_newline_forges_an_event`: a key may hold a whole event of its own.
-/

import ObjStr.Raw.Basic
import Mathlib.Data.List.DropRight

namespace ObjStr.Raw

open ObjStr.Lib

inductive StoreEvent where
  | put (key : Key)
  | delete (key : Key)
  /-- A raw shard flushed its index to disk. -/
  | flush (shardId txnId : UInt64)
  deriving DecidableEq, Repr

/-! ## Writing -/

def decimal (n : UInt64) : List Char := Nat.toDigits 10 n.toNat

def putWord : List Char := "PUT ".toList

def deleteWord : List Char := "DELETE ".toList

def flushWord : List Char := "FLUSH ".toList

def StoreEvent.display : StoreEvent → List Char
  | .put key => putWord ++ key.toList
  | .delete key => deleteWord ++ key.toList
  | .flush shardId txnId => flushWord ++ (decimal shardId ++ ' ' :: decimal txnId)

def wire (events : List StoreEvent) : List Char := events.flatMap fun e => e.display ++ ['\n']

/-! ## Reading -/

def isWhitespace (c : Char) : Bool :=
  let n := c.toNat
  (0x09 ≤ n && n ≤ 0x0D) || n == 0x20 || n == 0x85 || n == 0xA0 || n == 0x1680 || (0x2000 ≤ n && n ≤ 0x200A) ||
    n == 0x2028 || n == 0x2029 || n == 0x202F || n == 0x205F || n == 0x3000

def trimEnd (s : List Char) : List Char := s.rdropWhile isWhitespace

/-- `str::parse`, of an unsigned number: an optional sign, and digits. -/
def parseU64 (s : List Char) : Option UInt64 :=
  let digits := if s.head? = some '+' then s.tail else s
  if digits ≠ [] ∧ digits.all Char.isDigit ∧ Nat.ofDigitChars 10 digits 0 < UInt64.size then
    some (UInt64.ofNat (Nat.ofDigitChars 10 digits 0))
  else none

def stripPrefix (word s : List Char) : Option (List Char) := if word.isPrefixOf s then some (s.drop word.length) else none

/-- `rest.splitn(2, ' ')`, and both numbers. -/
def parseFlush (rest : List Char) : Option StoreEvent :=
  match parseU64 (rest.takeWhile (· ≠ ' ')), (if ' ' ∈ rest then parseU64 (rest.dropWhile (· ≠ ' ')).tail else none) with
  | some shardId, some txnId => some (.flush shardId txnId)
  | _, _ => none

def parseEvent (line : List Char) : Option StoreEvent :=
  let line := trimEnd line
  match stripPrefix putWord line with
  | some key => some (.put (String.ofList key))
  | none =>
    match stripPrefix deleteWord line with
    | some key => some (.delete (String.ofList key))
    | none =>
      match stripPrefix flushWord line with
      | some rest => parseFlush rest
      | none => none

/-- The lines of a stream, with their newlines; the last one may lack it. -/
def readLines : List Char → List (List Char)
  | [] => []
  | c :: s =>
    if c = '\n' then [c] :: readLines s
    else match readLines s with
      | [] => [[c]]
      | line :: lines => (c :: line) :: lines

def received (stream : List Char) : List StoreEvent := (readLines stream).filterMap parseEvent

/-! ## Lines -/

theorem readLines_append {line : List Char} (h : '\n' ∉ line) (s : List Char) :
    readLines (line ++ '\n' :: s) = (line ++ ['\n']) :: readLines s := by
  induction line with
  | nil => rfl
  | cons c line ih =>
    obtain ⟨hc, hline⟩ := not_or.mp (List.mem_cons.not.mp h)
    rw [List.cons_append, readLines, if_neg (Ne.symm hc), ih hline]
    rfl

/-- A newline ends its line. -/
theorem newline_of_mem_readLines {s line : List Char} (h : line ∈ readLines s) :
    ∃ l, '\n' ∉ l ∧ (line = l ∨ line = l ++ ['\n']) := by
  induction s generalizing line with
  | nil => cases h
  | cons c s ih =>
    rw [readLines] at h
    split at h
    · next hc =>
      rcases List.mem_cons.mp h with rfl | h
      · exact ⟨[], by simp, .inr (by rw [hc]; rfl)⟩
      · exact ih h
    · next hc =>
      have hne : '\n' ≠ c := Ne.symm hc
      cases hs : readLines s with
      | nil =>
        rw [hs] at h
        obtain rfl := List.mem_singleton.mp h
        exact ⟨[c], by simp [hne], .inl rfl⟩
      | cons first lines =>
        rw [hs] at h ih
        rcases List.mem_cons.mp h with rfl | h
        · obtain ⟨l, hl, hfirst⟩ := ih List.mem_cons_self
          refine ⟨c :: l, by simp [hne, hl], ?_⟩
          rcases hfirst with rfl | rfl
          · exact .inl rfl
          · exact .inr rfl
        · exact ih (List.mem_cons_of_mem _ h)

/-! ## Trimming -/

theorem trimEnd_newline (s : List Char) : trimEnd (s ++ ['\n']) = trimEnd s := List.rdropWhile_concat_pos _ _ _ (by decide)

theorem trimEnd_trimEnd (s : List Char) : trimEnd (trimEnd s) = trimEnd s := List.rdropWhile_idempotent _ _

/-- Only the end of a text decides whether it is trimmed. -/
theorem trimEnd_append {word s : List Char} (h : s ≠ []) : trimEnd (word ++ s) = word ++ s ↔ trimEnd s = s := by
  have hlast : ∀ h' : word ++ s ≠ [], (word ++ s).getLast h' = s.getLast h := fun _ => List.getLast_append_right h
  unfold trimEnd
  rw [List.rdropWhile_eq_self_iff, List.rdropWhile_eq_self_iff]
  constructor
  · intro hw _
    have hne : word ++ s ≠ [] := by simp [h]
    rw [← hlast hne]
    exact hw hne
  · intro hs hne
    rw [hlast hne]
    exact hs h

theorem stripPrefix_append (word s : List Char) : stripPrefix word (word ++ s) = some s := by
  rw [stripPrefix, if_pos (by simp), List.drop_left]

/-- No text begins with two words that begin differently. -/
theorem stripPrefix_other {word other : List Char} (hword : word ≠ []) (hother : other ≠ [])
    (hhead : word.head? ≠ other.head?) (s : List Char) : stripPrefix word (other ++ s) = none := by
  obtain ⟨c, word, rfl⟩ := List.exists_cons_of_ne_nil hword
  obtain ⟨d, other, rfl⟩ := List.exists_cons_of_ne_nil hother
  have hne : c ≠ d := by
    intro h
    exact hhead (by rw [h]; rfl)
  rw [stripPrefix, if_neg]
  simp [hne]

theorem stripPrefix_eq_some {word s rest : List Char} (h : stripPrefix word s = some rest) : s = word ++ rest := by
  unfold stripPrefix at h
  split at h
  · next hpre =>
    obtain ⟨t, rfl⟩ := List.isPrefixOf_iff_prefix.mp hpre
    rw [List.drop_left] at h
    rw [Option.some.inj h]
  · cases h

/-! ## Numbers -/

theorem isDigit_of_mem_decimal {n : UInt64} {c : Char} (h : c ∈ decimal n) : c.isDigit = true :=
  Nat.isDigit_of_mem_toDigits (by decide) (by decide) h

theorem decimal_ne_nil (n : UInt64) : decimal n ≠ [] := Nat.toDigits_ne_nil

theorem not_isWhitespace_of_isDigit {c : Char} (h : c.isDigit = true) : isWhitespace c = false := by
  unfold Char.isDigit at h
  simp only [Bool.and_eq_true, decide_eq_true_eq, ge_iff_le, UInt32.le_iff_toNat_le] at h
  have h1 : 48 ≤ c.toNat := h.1
  have h2 : c.toNat ≤ 57 := h.2
  simp only [isWhitespace, Bool.or_eq_false_iff, Bool.and_eq_false_iff, decide_eq_false_iff_not, beq_eq_false_iff_ne]
  omega

theorem trimEnd_decimal (n : UInt64) : trimEnd (decimal n) = decimal n :=
  List.rdropWhile_eq_self_iff.mpr fun hne => by
    rw [not_isWhitespace_of_isDigit (isDigit_of_mem_decimal (List.getLast_mem hne))]
    decide

theorem parseU64_decimal (n : UInt64) : parseU64 (decimal n) = some n := by
  have hhead : (decimal n).head? ≠ some '+' := by
    intro h
    exact absurd (isDigit_of_mem_decimal (List.mem_of_mem_head? h)) (by decide)
  have hvalue : Nat.ofDigitChars 10 (decimal n) 0 = n.toNat := Nat.ofDigitChars_ten_toDigits
  unfold parseU64
  rw [if_neg hhead]
  dsimp only
  rw [hvalue, UInt64.ofNat_toNat]
  refine if_pos ⟨decimal_ne_nil n, ?_, n.toNat_lt⟩
  exact List.all_eq_true.mpr fun c hc => isDigit_of_mem_decimal hc

/-! ## The stream -/

/-- The key fits on a line: what is written is what is read. -/
def FitsLine (key : Key) : Prop := key.toList ≠ [] ∧ '\n' ∉ key.toList ∧ trimEnd key.toList = key.toList

def StoreEvent.FitsLine : StoreEvent → Prop
  | .put key | .delete key => Raw.FitsLine key
  | .flush .. => True

theorem parseFlush_display (shardId txnId : UInt64) :
    parseFlush (decimal shardId ++ ' ' :: decimal txnId) = some (.flush shardId txnId) := by
  have hdigits : ∀ c ∈ decimal shardId, decide (c ≠ ' ') = true := by
    intro c hc
    have hc := isDigit_of_mem_decimal hc
    refine decide_eq_true fun h => ?_
    rw [h] at hc
    exact absurd hc (by decide)
  have hfirst : (decimal shardId ++ ' ' :: decimal txnId).takeWhile (· ≠ ' ') = decimal shardId := by
    rw [List.takeWhile_append_of_pos hdigits]
    simp
  have hsecond : (decimal shardId ++ ' ' :: decimal txnId).dropWhile (· ≠ ' ') = ' ' :: decimal txnId := by
    rw [List.dropWhile_append_of_pos hdigits]
    simp
  unfold parseFlush
  rw [hfirst, hsecond, if_pos (by simp), List.tail_cons, parseU64_decimal, parseU64_decimal]

/-- What is on the line of an event. -/
theorem newline_not_mem_display {e : StoreEvent} (h : e.FitsLine) : '\n' ∉ e.display := by
  have hdecimal : ∀ n, '\n' ∉ decimal n := fun n hm => absurd (isDigit_of_mem_decimal hm) (by decide)
  have hword : ∀ {word : List Char} {key : Key}, '\n' ∉ word → FitsLine key → '\n' ∉ word ++ key.toList := by
    intro word key hw hkey
    exact fun hm => (List.mem_append.mp hm).elim hw hkey.2.1
  cases e with
  | put key => exact hword (by decide) h
  | delete key => exact hword (by decide) h
  | flush shardId txnId =>
    intro hm
    rcases List.mem_append.mp hm with hm | hm
    · exact absurd hm (by decide)
    · rcases List.mem_append.mp hm with hm | hm
      · exact hdecimal shardId hm
      · rcases List.mem_cons.mp hm with hm | hm
        · exact absurd hm (by decide)
        · exact hdecimal txnId hm

theorem parseEvent_display {e : StoreEvent} (h : e.FitsLine) : parseEvent (e.display ++ ['\n']) = some e := by
  have hkey : ∀ {word : List Char} {key : Key}, FitsLine key → trimEnd (word ++ key.toList) = word ++ key.toList :=
    fun hkey => (trimEnd_append hkey.1).mpr hkey.2.2
  unfold parseEvent
  rw [trimEnd_newline]
  cases e with
  | put key =>
    rw [StoreEvent.display, hkey h]
    dsimp only
    rw [stripPrefix_append]
    dsimp only
    rw [String.ofList_toList]
  | delete key =>
    have hput : stripPrefix putWord (deleteWord ++ key.toList) = none :=
      stripPrefix_other (by decide) (by decide) (by decide) _
    rw [StoreEvent.display, hkey h]
    dsimp only
    rw [hput, stripPrefix_append]
    dsimp only
    rw [String.ofList_toList]
  | flush shardId txnId =>
    have htrim : trimEnd (decimal shardId ++ ' ' :: decimal txnId) = decimal shardId ++ ' ' :: decimal txnId := by
      rw [List.append_cons]
      exact (trimEnd_append (decimal_ne_nil txnId)).mpr (trimEnd_decimal txnId)
    have hput : stripPrefix putWord (flushWord ++ (decimal shardId ++ ' ' :: decimal txnId)) = none :=
      stripPrefix_other (by decide) (by decide) (by decide) _
    have hdelete : stripPrefix deleteWord (flushWord ++ (decimal shardId ++ ' ' :: decimal txnId)) = none :=
      stripPrefix_other (by decide) (by decide) (by decide) _
    rw [StoreEvent.display, (trimEnd_append (by simp)).mpr htrim]
    dsimp only
    rw [hput, hdelete, stripPrefix_append]
    exact parseFlush_display shardId txnId

/-- What is read off a line has fitted on one. -/
theorem fitsLine_of_parseEvent {line l : List Char} {e : StoreEvent} (hl : '\n' ∉ l) (hline : line = l ∨ line = l ++ ['\n'])
    (h : parseEvent line = some e) : e.FitsLine := by
  have htrim : trimEnd line = trimEnd l := by
    rcases hline with rfl | rfl
    · rfl
    · exact trimEnd_newline l
  have hnew : '\n' ∉ trimEnd l := fun hm => hl ((List.rdropWhile_prefix _ _).subset hm)
  have hword : ∀ (word : List Char) (key : List Char), word ≠ [] → trimEnd word ≠ word → trimEnd l = word ++ key →
      FitsLine (String.ofList key) := by
    intro word key hne hword hkey
    have htrimmed : trimEnd (word ++ key) = word ++ key := hkey ▸ trimEnd_trimEnd l
    have hnil : key ≠ [] := by
      rintro rfl
      rw [List.append_nil] at htrimmed
      exact hword htrimmed
    rw [FitsLine, String.toList_ofList]
    exact ⟨hnil, fun hm => hnew (hkey ▸ List.mem_append_right _ hm), (trimEnd_append hnil).mp htrimmed⟩
  unfold parseEvent at h
  rw [htrim] at h
  dsimp only at h
  split at h
  · next key hkey =>
    cases h
    exact hword _ key (by decide) (by decide) (stripPrefix_eq_some hkey)
  · split at h
    · next key hkey =>
      cases h
      exact hword _ key (by decide) (by decide) (stripPrefix_eq_some hkey)
    · split at h
      · next rest _ =>
        unfold parseFlush at h
        split at h
        · cases h
          exact trivial
        · cases h
      · cases h

theorem received_wire {events : List StoreEvent} (h : ∀ e ∈ events, e.FitsLine) : received (wire events) = events := by
  induction events with
  | nil => rfl
  | cons e events ih =>
    have he := h e List.mem_cons_self
    have hrest := ih fun e' he' => h e' (List.mem_cons_of_mem e he')
    have hwire : wire (e :: events) = e.display ++ '\n' :: wire events := by simp [wire]
    rw [received, hwire, readLines_append (newline_not_mem_display he), List.filterMap_cons, parseEvent_display he]
    exact congrArg (e :: ·) hrest

/-- The events come out as they went in if and only if all their keys fit on a line. -/
theorem received_eq_iff (events : List StoreEvent) : received (wire events) = events ↔ ∀ e ∈ events, e.FitsLine := by
  refine ⟨fun h e he => ?_, received_wire⟩
  rw [← h] at he
  obtain ⟨line, hline, hparse⟩ := List.mem_filterMap.mp he
  obtain ⟨l, hl, hor⟩ := newline_of_mem_readLines hline
  exact fitsLine_of_parseEvent hl hor hparse

/-- One put comes out as a put and a delete. -/
theorem a_key_with_a_newline_forges_an_event : ¬ ∀ events, received (wire events) = events := by
  intro h
  have hforged : received (wire [.put "a\nDELETE b"]) = [.put "a", .delete "b"] := by decide +kernel
  exact absurd (hforged.symm.trans (h _)) (by decide)

end ObjStr.Raw
