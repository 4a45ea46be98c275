/-
  ObjStr.Conf.Lines — the lines and the words of a config file (`tokenize` of `shardedobjstr/src/config.rs`, `tokenize_kv_line` of
  `objstrd/src/config.rs`).

  A text is the list of its characters. Words stand between white space; a quote of either kind keeps what is up to the next
  quote of that kind in the word, white space too, so `a"b c"'"'` is one word.
  - `tokenize_line`: any list of words, none of them empty, is what some line is read to: each word spelled with quotes.
  - `mem_of_tokenize`: a word holds only characters of its line.
-/

import ObjStr.Raw.Event
import Mathlib.Data.List.Chain
import Mathlib.Data.List.Infix

namespace ObjStr.Conf

open ObjStr.Raw

abbrev Text := List Char

/-! ## Lines -/

def trim (s : Text) : Text := trimEnd (s.dropWhile isWhitespace)

/-- `strip_suffix`, of a character. -/
def stripLast (c : Char) (s : Text) : Option Text := if s.getLast? = some c then some s.dropLast else none

/-- A line without its `\n` or `\r\n`. -/
def chomp (line : Text) : Text :=
  match stripLast '\n' line with
  | none => line
  | some line => (stripLast '\r' line).getD line

/-- `str::lines`. -/
def textLines (text : Text) : List Text := (readLines text).map chomp

def byteLen (s : Text) : Nat := (s.map Char.utf8Size).sum

/-- A line that is not blank and no comment: how far it is indented, in bytes, and the line without white space around it. -/
def contentLine (raw : Text) : Option (Nat × Text) :=
  let trimmed := trim raw
  if trimmed.isEmpty || trimmed.head? = some '#' then none
  else some (byteLen raw - byteLen (raw.dropWhile isWhitespace), trimmed)

def contentLines (text : Text) : List (Nat × Text) := (textLines text).filterMap contentLine

def contains (word s : Text) : Bool := s.tails.any word.isPrefixOf

/-- `split_whitespace().next()`, of a line without white space before it. -/
def firstWord (line : Text) : Text := line.takeWhile (!isWhitespace ·)

/-! ## Words -/

structure Tokenizer where
  tokens : List Text := []
  current : Text := []
  inQuote : Option Char := none

namespace Tokenizer

def push (t : Tokenizer) (ch : Char) : Tokenizer := { t with current := t.current ++ [ch] }

def flush (t : Tokenizer) : Tokenizer :=
  if t.current.isEmpty then t else { t with tokens := t.tokens ++ [t.current], current := [] }

def next (t : Tokenizer) (ch : Char) : Tokenizer :=
  match t.inQuote with
  | some q => if ch = q then { t with inQuote := none } else t.push ch
  | none =>
    if ch = '"' ∨ ch = '\'' then { t with inQuote := some ch }
    else if isWhitespace ch then t.flush
    else t.push ch

end Tokenizer

def scan (line : Text) : Tokenizer := line.foldl Tokenizer.next {}

def tokenize (line : Text) : Except String (List Text) :=
  if (scan line).inQuote.isSome then .error s!"unterminated quote in: {String.ofList line}" else .ok (scan line).flush.tokens

/-- The daemon's: a quote that is not closed goes on to the end of the line. -/
def tokenizeKvLine (line : Text) : List Text := (scan line).flush.tokens

theorem tokenizeKvLine_of_tokenize {line : Text} {words : List Text} (h : tokenize line = .ok words) :
    tokenizeKvLine line = words := by
  unfold tokenize at h
  split at h
  · cases h
  · exact Except.ok.inj h

/-! ## What a word holds -/

/-- The words so far hold only such characters, and none of the finished ones is empty. -/
def Tokenizer.Within (P : Char → Prop) (t : Tokenizer) : Prop :=
  (∀ w ∈ t.tokens, w ≠ [] ∧ ∀ c ∈ w, P c) ∧ ∀ c ∈ t.current, P c

namespace Tokenizer

variable {P : Char → Prop} {t : Tokenizer}

theorem Within.flush (h : t.Within P) : t.flush.Within P := by
  unfold Tokenizer.flush
  split
  · exact h
  · next hne =>
    refine ⟨fun w hw => ?_, List.forall_mem_nil _⟩
    rcases List.mem_append.mp hw with hw | hw
    · exact h.1 w hw
    · obtain rfl := List.mem_singleton.mp hw
      exact ⟨List.isEmpty_eq_false_iff.mp (Bool.not_eq_true _ ▸ hne), h.2⟩

theorem Within.push (h : t.Within P) {ch : Char} (hch : P ch) : (t.push ch).Within P := by
  refine ⟨h.1, fun c hc => ?_⟩
  rcases List.mem_append.mp hc with hc | hc
  · exact h.2 c hc
  · exact List.mem_singleton.mp hc ▸ hch

theorem Within.next (h : t.Within P) {ch : Char} (hch : P ch) : (t.next ch).Within P := by
  unfold Tokenizer.next
  split
  · split
    · exact h
    · exact h.push hch
  · split
    · exact h
    split
    · exact h.flush
    · exact h.push hch

end Tokenizer

theorem within_scan {P : Char → Prop} {line : Text} (h : ∀ c ∈ line, P c) : (scan line).Within P := by
  unfold scan
  have hstart : Tokenizer.Within P {} := ⟨List.forall_mem_nil _, List.forall_mem_nil _⟩
  generalize ({} : Tokenizer) = t at hstart
  induction line generalizing t with
  | nil => exact hstart
  | cons c line ih =>
    obtain ⟨hc, hline⟩ := List.forall_mem_cons.mp h
    exact ih hline _ (hstart.next hc)

theorem mem_tokenizeKvLine {P : Char → Prop} {line : Text} (h : ∀ c ∈ line, P c) :
    ∀ w ∈ tokenizeKvLine line, w ≠ [] ∧ ∀ c ∈ w, P c := (within_scan h).flush.1

/-- No word is empty, and a word holds only characters of its line. -/
theorem mem_of_tokenize {P : Char → Prop} {line : Text} {words : List Text} (h : tokenize line = .ok words)
    (hline : ∀ c ∈ line, P c) : ∀ w ∈ words, w ≠ [] ∧ ∀ c ∈ w, P c :=
  tokenizeKvLine_of_tokenize h ▸ mem_tokenizeKvLine hline

/-! ## Spelling -/

def quoteChar (c : Char) : Text := if c = '"' then ['\'', c, '\''] else ['"', c, '"']

/-- Every character between quotes of its own, so that none is read as anything else. -/
def quote (s : Text) : Text := s.flatMap quoteChar

/-- The text adds this to the word it is in. -/
def Spells (text word : Text) : Prop :=
  ∀ t : Tokenizer, t.inQuote = none → text.foldl Tokenizer.next t = { t with current := t.current ++ word }

theorem spells_nil : Spells [] [] := fun t _ => by simp

theorem Spells.append {s s' w w' : Text} (h : Spells s w) (h' : Spells s' w') : Spells (s ++ s') (w ++ w') := by
  intro t ht
  rw [List.foldl_append, h t ht, h' { t with current := t.current ++ w } ht, List.append_assoc]

theorem spells_quoteChar (c : Char) : Spells (quoteChar c) [c] := by
  intro t ht
  by_cases hc : c = '"'
  · subst hc
    simp [quoteChar, Tokenizer.next, Tokenizer.push, ht]
  · simp [quoteChar, Tokenizer.next, Tokenizer.push, ht, hc]

theorem spells_quote (s : Text) : Spells (quote s) s := by
  induction s with
  | nil => exact spells_nil
  | cons c s ih => exact (spells_quoteChar c).append ih

/-- A character that stands for itself. -/
def isPlain (c : Char) : Bool := !isWhitespace c && c != '"' && c != '\''

theorem spells_plain {s : Text} (h : s.all isPlain = true) : Spells s s := by
  induction s with
  | nil => exact spells_nil
  | cons c s ih =>
    rw [List.all_cons, Bool.and_eq_true] at h
    refine Spells.append (s := [c]) (w := [c]) (fun t ht => ?_) (ih h.2)
    obtain ⟨⟨hws, hq⟩, hq'⟩ : (isWhitespace c = false ∧ c ≠ '"') ∧ c ≠ '\'' := by simpa [isPlain] using h.1
    simp [Tokenizer.next, Tokenizer.push, ht, hws, hq, hq']

theorem isPlain_decimal (n : UInt64) : (decimal n).all isPlain = true := by
  refine List.all_eq_true.mpr fun c hc => ?_
  have hd := isDigit_of_mem_decimal hc
  rw [isPlain, not_isWhitespace_of_isDigit hd]
  have h1 : c ≠ '"' := by rintro rfl; exact absurd hd (by decide)
  have h2 : c ≠ '\'' := by rintro rfl; exact absurd hd (by decide)
  simp [h1, h2]

/-! ## Lines of words -/

def line : List Text → Text
  | [] => []
  | [s] => s
  | s :: ss => s ++ ' ' :: line ss

theorem scan_line {texts words : List Text} (h : List.Forall₂ Spells texts words) (hne : ∀ w ∈ words, w ≠ []) (t : Tokenizer)
    (ht : t.inQuote = none) (hcur : t.current = []) :
    ((line texts).foldl Tokenizer.next t).flush = { t with tokens := t.tokens ++ words } ∧
      ((line texts).foldl Tokenizer.next t).inQuote = none := by
  induction h generalizing t with
  | nil =>
    rw [line, List.foldl_nil, List.append_nil, Tokenizer.flush, if_pos (by simp [hcur])]
    exact ⟨rfl, ht⟩
  | @cons s w ss ws hs hss ih =>
    obtain ⟨hw, hws⟩ := List.forall_mem_cons.mp hne
    cases hss with
    | nil =>
      rw [line, hs t ht]
      simp [Tokenizer.flush, hcur, hw, ht]
    | @cons s' w' ss ws hs' hss =>
      have hstep : (s ++ ' ' :: line (s' :: ss)).foldl Tokenizer.next t =
          (line (s' :: ss)).foldl Tokenizer.next { t with tokens := t.tokens ++ [w] } := by
        rw [List.foldl_append, hs t ht, List.foldl_cons]
        refine congrArg (fun t => (line (s' :: ss)).foldl Tokenizer.next t) ?_
        have hblank : isWhitespace ' ' = true := by decide
        simp [Tokenizer.next, ht, hblank, Tokenizer.flush, hcur, hw]
      rw [line, hstep]
      have := ih hws { t with tokens := t.tokens ++ [w] } ht hcur
      simpa using this
      exact List.cons_ne_nil _ _

/-- Whatever the words are, they can be spelled. -/
theorem tokenize_line {texts words : List Text} (h : List.Forall₂ Spells texts words) (hne : ∀ w ∈ words, w ≠ []) :
    tokenize (line texts) = .ok words := by
  obtain ⟨hflush, hquote⟩ := scan_line h hne {} rfl rfl
  unfold tokenize
  rw [if_neg (by rw [scan, hquote]; simp), scan, hflush]
  simp

/-! ## Printed lines -/

/-- A piece of a line with nothing around it to trim. -/
structure Tight (s : Text) : Prop where
  ne_nil : s ≠ []
  head : ∀ c ∈ s.head?, isWhitespace c = false
  last : ∀ c ∈ s.getLast?, isWhitespace c = false
  newline : '\n' ∉ s

/-- A line that is read as it is: it is no comment either. -/
structure Neat (s : Text) : Prop extends Tight s where
  hash : s.head? ≠ some '#'

theorem tight_of_all {s : Text} (hne : s ≠ []) (h : s.all (!isWhitespace ·) = true) : Tight s where
  ne_nil := hne
  head c hc := by simpa using List.all_eq_true.mp h c (List.mem_of_mem_head? hc)
  last c hc := by simpa using List.all_eq_true.mp h c (List.mem_of_getLast? hc)
  newline hm := absurd (List.all_eq_true.mp h _ hm) (by decide)

theorem trimEnd_eq_self {s : Text} (h : ∀ c ∈ s.getLast?, isWhitespace c = false) : trimEnd s = s :=
  List.rdropWhile_eq_self_iff.mpr fun hne => by simp [h _ (List.getLast?_eq_some_getLast hne)]

theorem trim_eq_self {s : Text} (hhead : ∀ c ∈ s.head?, isWhitespace c = false) (hlast : ∀ c ∈ s.getLast?, isWhitespace c = false) :
    trim s = s := by
  have hdrop : s.dropWhile isWhitespace = s := by
    cases s with
    | nil => rfl
    | cons c s => exact List.dropWhile_cons_of_neg (by simp [hhead c rfl])
  rw [trim, hdrop, trimEnd_eq_self hlast]

theorem head_trim (s : Text) : ∀ c ∈ (trim s).head?, isWhitespace c = false := by
  intro c hc
  obtain ⟨t, ht⟩ := List.rdropWhile_prefix isWhitespace (s.dropWhile isWhitespace)
  have hhead : c ∈ (s.dropWhile isWhitespace).head? := by
    rw [← ht, List.head?_append]
    exact Option.or_eq_some_iff.mpr (.inl hc)
  have := List.head?_dropWhile_not isWhitespace s
  rw [Option.mem_def.mp hhead] at this
  simpa using this

theorem last_trim (s : Text) : ∀ c ∈ (trim s).getLast?, isWhitespace c = false := by
  intro c hc
  have hne : trim s ≠ [] := by
    intro h
    rw [h] at hc
    cases hc
  have hlast := List.rdropWhile_last_not isWhitespace (s.dropWhile isWhitespace) hne
  rw [List.getLast?_eq_some_getLast hne] at hc
  obtain rfl := Option.some.inj hc
  exact Bool.eq_false_iff.mpr hlast

theorem isWhitespace_of_trim_nil {s : Text} (h : trim s = []) : ∀ c ∈ s, isWhitespace c = true := by
  refine List.dropWhile_eq_nil_iff.mp ?_
  have hall := List.rdropWhile_eq_nil_iff.mp h
  by_contra hne
  have := List.head_dropWhile_not isWhitespace hne
  rw [hall _ (List.head_mem hne)] at this
  cases this

theorem mem_of_mem_trim {s : Text} {c : Char} (h : c ∈ trim s) : c ∈ s :=
  (List.dropWhile_suffix _).subset ((List.rdropWhile_prefix _ _).subset h)

theorem mem_of_stripLast {c d : Char} {s t : Text} (h : stripLast c s = some t) (hd : d ∈ t) : d ∈ s := by
  unfold stripLast at h
  split at h
  · obtain rfl := Option.some.inj h
    exact List.mem_of_mem_dropLast hd
  · cases h

theorem chomp_newline (body : Text) : chomp (body ++ ['\n']) = (stripLast '\r' body).getD body := by
  have hlast : stripLast '\n' (body ++ ['\n']) = some body := by simp [stripLast]
  rw [chomp, hlast]

theorem newline_not_mem_textLines {text l : Text} (h : l ∈ textLines text) : '\n' ∉ l := by
  obtain ⟨raw, hraw, rfl⟩ := List.mem_map.mp h
  obtain ⟨body, hbody, rfl | rfl⟩ := newline_of_mem_readLines hraw
  · have hlast : stripLast '\n' raw = none := if_neg fun hl => hbody (List.mem_of_getLast? hl)
    rw [chomp, hlast]
    exact hbody
  · rw [chomp_newline]
    cases hcr : stripLast '\r' body with
    | none => exact hbody
    | some l => exact fun hm => hbody (mem_of_stripLast hcr hm)

/-- What is read from a line of a file is neat. -/
theorem neat_of_mem {text l : Text} {i : Nat} (h : (i, l) ∈ contentLines text) : Neat l := by
  obtain ⟨raw, hraw, hl⟩ := List.mem_filterMap.mp h
  unfold contentLine at hl
  dsimp only at hl
  split at hl
  · cases hl
  · next hne =>
    obtain ⟨-, rfl⟩ := Prod.mk.inj (Option.some.inj hl)
    rw [Bool.or_eq_true, not_or] at hne
    exact ⟨⟨fun h => hne.1 (by simp [h]), head_trim raw, last_trim raw, fun hm =>
      newline_not_mem_textLines hraw (mem_of_mem_trim hm)⟩, fun h => hne.2 (by simp [h])⟩

def indented (l : Nat × Text) : Text := List.replicate l.1 ' ' ++ l.2

def render (lines : List (Nat × Text)) : Text := lines.flatMap fun l => indented l ++ ['\n']

theorem byteLen_append (s s' : Text) : byteLen (s ++ s') = byteLen s + byteLen s' := by simp [byteLen]

theorem byteLen_blanks (n : Nat) : byteLen (List.replicate n ' ') = n := by
  have hblank : Char.utf8Size ' ' = 1 := by decide
  simp [byteLen, hblank]

theorem textLines_render {lines : List (Nat × Text)} (h : ∀ l ∈ lines, Neat l.2) :
    textLines (render lines) = lines.map indented := by
  induction lines with
  | nil => rfl
  | cons l lines ih =>
    obtain ⟨hl, hlines⟩ := List.forall_mem_cons.mp h
    have hline : '\n' ∉ indented l := by simp [indented, hl.newline]
    have hcr : stripLast '\r' (indented l) = none := by
      refine if_neg fun hcr => ?_
      rw [indented, List.getLast?_append_of_ne_nil _ hl.ne_nil] at hcr
      exact absurd (hl.last '\r' hcr) (by decide)
    rw [textLines, render, List.flatMap_cons, List.append_assoc, List.singleton_append, readLines_append hline, List.map_cons,
      chomp_newline, hcr]
    exact congrArg _ (ih hlines)

theorem contentLine_indented {l : Nat × Text} (h : Neat l.2) : contentLine (indented l) = some l := by
  obtain ⟨i, s⟩ := l
  have hblank : ∀ c ∈ List.replicate i ' ', isWhitespace c = true := fun c hc => (List.mem_replicate.mp hc).2 ▸ by decide
  have hdrop : (indented (i, s)).dropWhile isWhitespace = s := by
    rw [indented, List.dropWhile_append_of_pos hblank]
    cases s with
    | nil => rfl
    | cons c s => exact List.dropWhile_cons_of_neg (by simp [h.head c rfl])
  have htrim : trim (indented (i, s)) = s := by
    rw [trim, hdrop]
    exact trimEnd_eq_self h.last
  have hkept : (s.isEmpty || decide (s.head? = some '#')) = false :=
    Bool.or_eq_false_iff.mpr ⟨List.isEmpty_eq_false_iff.mpr h.ne_nil, decide_eq_false h.hash⟩
  have hindent : byteLen (indented (i, s)) - byteLen s = i := by
    rw [indented, byteLen_append, byteLen_blanks, Nat.add_sub_cancel]
  simp only [contentLine, htrim, hkept, hdrop, hindent, Bool.false_eq_true, if_false]

/-- Neat lines are read as they were printed. -/
theorem contentLines_render {lines : List (Nat × Text)} (h : ∀ l ∈ lines, Neat l.2) : contentLines (render lines) = lines := by
  rw [contentLines, textLines_render h, List.filterMap_map]
  refine (List.filterMap_congr fun l hl => ?_).trans List.filterMap_some
  exact contentLine_indented (h l hl)

/-! ## What is neat -/

theorem Tight.append {s s' : Text} (h : Tight s) (h' : Tight s') (mid : Text) (hmid : '\n' ∉ mid) : Tight (s ++ mid ++ s') where
  ne_nil := by simp [h.ne_nil]
  head c hc := by
    rw [List.append_assoc, List.head?_append_of_ne_nil _ h.ne_nil] at hc
    exact h.head c hc
  last c hc := by
    rw [List.getLast?_append_of_ne_nil _ h'.ne_nil] at hc
    exact h'.last c hc
  newline := by simp [h.newline, h'.newline, hmid]

theorem Neat.append {s s' : Text} (h : Neat s) (h' : Tight s') (mid : Text) (hmid : '\n' ∉ mid) : Neat (s ++ mid ++ s') :=
  ⟨h.toTight.append h' mid hmid, by rw [List.append_assoc, List.head?_append_of_ne_nil _ h.ne_nil]; exact h.hash⟩

theorem neat_line {texts : List Text} (hne : texts ≠ []) (h : ∀ s ∈ texts, Neat s) : Neat (line texts) := by
  induction texts with
  | nil => exact absurd rfl hne
  | cons s ss ih =>
    obtain ⟨hs, hss⟩ := List.forall_mem_cons.mp h
    cases ss with
    | nil => exact hs
    | cons s' ss =>
      have := hs.append (ih (List.cons_ne_nil _ _) hss).toTight [' '] (by decide)
      rwa [List.append_assoc] at this

theorem neat_decimal (n : UInt64) : Neat (decimal n) where
  ne_nil := decimal_ne_nil n
  head c hc := not_isWhitespace_of_isDigit (isDigit_of_mem_decimal (List.mem_of_mem_head? hc))
  last c hc := not_isWhitespace_of_isDigit (isDigit_of_mem_decimal (List.mem_of_getLast? hc))
  newline hm := absurd (isDigit_of_mem_decimal hm) (by decide)
  hash h := absurd (isDigit_of_mem_decimal (List.mem_of_mem_head? h)) (by decide)

/-- A word that can stand on a line. -/
def Word (s : Text) : Prop := s ≠ [] ∧ '\n' ∉ s

theorem neat_quoteChar {c : Char} (hc : c ≠ '\n') : Neat (quoteChar c) := by
  unfold quoteChar
  split
  · exact ⟨⟨by simp, by simp; decide, by simp; decide, by simp [Ne.symm hc]⟩, by simp⟩
  · exact ⟨⟨by simp, by simp; decide, by simp; decide, by simp [Ne.symm hc]⟩, by simp⟩

theorem neat_quote {s : Text} (h : Word s) : Neat (quote s) := by
  obtain ⟨hne, hline⟩ := h
  induction s with
  | nil => exact absurd rfl hne
  | cons c s ih =>
    have hc : c ≠ '\n' := fun hc => hline (by simp [hc])
    cases s with
    | nil => simpa [quote] using neat_quoteChar hc
    | cons d s =>
      have := (neat_quoteChar hc).append (ih (List.cons_ne_nil _ _) fun hm => hline (List.mem_cons_of_mem _ hm)).toTight [] (by simp)
      rwa [List.append_nil] at this

def quoted (words : List Text) : Text := line (words.map quote)

theorem neat_quoted {words : List Text} (hne : words ≠ []) (h : ∀ w ∈ words, Word w) : Neat (quoted words) :=
  neat_line (by simpa using hne) (List.forall_mem_map.mpr fun w hw => neat_quote (h w hw))

theorem tokenize_quoted {words : List Text} (h : ∀ w ∈ words, w ≠ []) : tokenize (quoted words) = .ok words :=
  tokenize_line (List.forall₂_map_left_iff.mpr (List.forall₂_same.mpr fun w _ => spells_quote w)) h

/-! ## What is not in a quoted line -/

def isQuote (c : Char) : Bool := c = '"' || c = '\''

/-- Of any two characters that follow each other one is a quote. -/
def Sparse (s : Text) : Prop := s.IsChain fun a b => isQuote a || isQuote b

structure Enclosed (s : Text) : Prop where
  sparse : Sparse s
  head : ∃ q ∈ s.head?, isQuote q = true
  last : ∃ q ∈ s.getLast?, isQuote q = true

theorem Enclosed.append {s s' : Text} (h : Enclosed s) (h' : Enclosed s') (mid : Text) (hmid : mid = [] ∨ mid = [' ']) :
    Enclosed (s ++ mid ++ s') := by
  obtain ⟨q, hq, hquote⟩ := h.last
  obtain ⟨q', hq', hquote'⟩ := h'.head
  have hne : s ≠ [] := by rintro rfl; cases hq
  have hne' : s' ≠ [] := by rintro rfl; cases hq'
  refine ⟨?_, ?_, ?_⟩
  · have hsm : Sparse (s ++ mid) := by
      refine List.isChain_append.mpr ⟨h.sparse, ?_, fun a ha b _ => ?_⟩
      · rcases hmid with rfl | rfl
        · exact .nil
        · exact .singleton _
      · rw [Option.mem_unique ha hq, hquote]
        rfl
    refine List.isChain_append.mpr ⟨hsm, h'.sparse, fun a _ b hb => ?_⟩
    rw [Option.mem_unique hb hq', hquote', Bool.or_true]
  · rw [List.append_assoc, List.head?_append_of_ne_nil _ hne]
    exact h.head
  · rw [List.getLast?_append_of_ne_nil _ hne']
    exact h'.last

theorem enclosed_quoteChar (c : Char) : Enclosed (quoteChar c) := by
  unfold quoteChar
  split
  · exact ⟨by simp [Sparse, isQuote], ⟨_, rfl, rfl⟩, ⟨_, rfl, rfl⟩⟩
  · exact ⟨by simp [Sparse, isQuote], ⟨_, rfl, rfl⟩, ⟨_, rfl, rfl⟩⟩

theorem enclosed_quote {s : Text} (h : s ≠ []) : Enclosed (quote s) := by
  induction s with
  | nil => exact absurd rfl h
  | cons c s ih =>
    cases s with
    | nil => simpa [quote] using enclosed_quoteChar c
    | cons d s =>
      have := (enclosed_quoteChar c).append (ih (List.cons_ne_nil _ _)) [] (.inl rfl)
      rwa [List.append_nil] at this

theorem enclosed_quoted {words : List Text} (hne : words ≠ []) (h : ∀ w ∈ words, w ≠ []) : Enclosed (quoted words) := by
  induction words with
  | nil => exact absurd rfl hne
  | cons w ws ih =>
    obtain ⟨hw, hws⟩ := List.forall_mem_cons.mp h
    cases ws with
    | nil => exact enclosed_quote hw
    | cons w' ws =>
      have := (enclosed_quote hw).append (ih (List.cons_ne_nil _ _) hws) [' '] (.inr rfl)
      rwa [List.append_assoc] at this

/-- Two characters that stand next to each other in no quoted line. -/
theorem Sparse.not_contains {s : Text} (h : Sparse s) {a b : Char} (ha : isQuote a = false) (hb : isQuote b = false) (rest : Text) :
    contains (a :: b :: rest) s = false := by
  refine Bool.eq_false_iff.mpr fun hc => ?_
  obtain ⟨t, ht, hpre⟩ := List.any_eq_true.mp hc
  obtain ⟨u, rfl⟩ := List.isPrefixOf_iff_prefix.mp hpre
  have hsuffix := List.mem_tails _ _ |>.mp ht
  have := h.suffix hsuffix
  rw [List.cons_append, List.cons_append, List.isChain_cons_cons, ha, hb] at this
  exact absurd this.1 (by decide)

theorem contains_append (pre word post : Text) : contains word (pre ++ word ++ post) = true := by
  refine List.any_eq_true.mpr ⟨word ++ post, List.mem_tails _ _ |>.mpr ⟨pre, by rw [List.append_assoc]⟩, ?_⟩
  exact List.isPrefixOf_iff_prefix.mpr (List.prefix_append _ _)

end ObjStr.Conf
