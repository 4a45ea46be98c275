/-
  ObjStr.S3.Keys — the paths that the S3 adapter stores objects under (`objstrd/src/adapter.rs`), and the keys that it
  reads back from them.

  A key is put behind its bucket, and a marker behind a key that ends with a slash (`objKey`). What is a path then is
  kept as it is; anything else is encoded, and loses its empty segments. A listing takes the bucket and the marker off
  again (`listedKey`).
  - `objKey_listedKey`: a path that is listed under a key is the path of that key.
  - `listedKey_objKey_iff`: the path of a key is listed under this key if and only if the key is plain (`Plain`).
-/

import ObjStr.Raw.Listing

namespace ObjStr.S3

open ObjStr.Raw ObjStr.Sharded

/-! ## Paths -/

def rawPath (s : Key) : Key := (Path.parse s).getD (Path.fromStr s)

def dirMark : Key := "__DIRMARK__"

def dirMarkSuffix : Key := "/__DIRMARK__"

def endsWith (s suffix : Key) : Bool := suffix.toList.isSuffixOf s.toList

def startsWith (s pre : Key) : Bool := pre.toList.isPrefixOf s.toList

/-- A key that ends with a slash is stored with a marker behind it. -/
def marked (key : Key) : Key := if endsWith key "/" then key ++ dirMark else key

def objKey (bucket key : Key) : Key := rawPath (bucket ++ "/" ++ marked key)

/-- The errors of the adapter; a message that is not given is empty. -/
inductive S3Error where
  | noSuchBucket
  | noSuchKey
  | noSuchUpload
  | invalidArgument (message : String)
  | invalidPart (message : String)
  | invalidRequest (message : String)
  | entityTooLarge (message : String)
  | slowDown
  | internalError
  deriving DecidableEq, Repr

/-- Keys with a component `..` or the marker are refused. -/
def validateKey (key : Key) : Except S3Error Unit :=
  match (key.toList.splitOn '/').find? fun part => part = ['.', '.'] || part = dirMark.toList with
  | none => .ok ()
  | some part =>
    if part = ['.', '.'] then .error (.invalidArgument "key must not contain '..' path components")
    else .error (.invalidArgument "key must not contain reserved component '__DIRMARK__'")

/-! ## Keys of a listing -/

def stripPrefix (s pre : Key) : Option Key :=
  if startsWith s pre then some (String.ofList (s.toList.drop pre.toList.length)) else none

/-- The key of a path in a bucket, without the marker; a stray marker is not a key. -/
def unmarked (raw : Key) : Option Key :=
  if endsWith raw dirMarkSuffix then some (String.ofList (raw.toList.take (raw.toList.length - dirMark.toList.length)))
  else if raw = dirMark ∨ endsWith raw (dirMarkSuffix ++ "/") then none
  else some raw

def bucketsPrefix : Key := "__buckets__/"

def listedKey (bucket location : Key) : Option Key :=
  ((stripPrefix location (bucket ++ "/")).bind unmarked).filter fun key => !startsWith key bucketsPrefix

/-- A key whose path is the key itself: no empty component but behind a slash at its end, none that is `.` or `..`,
    no control character; the last component is not the marker, and the key is not of the registry of buckets. -/
structure Plain (key : Key) : Prop where
  path : Path.IsPath (marked key)
  nonempty : key ≠ ""
  unmarked : ¬ endsWith key dirMarkSuffix = true ∧ key ≠ dirMark
  visible : ¬ startsWith key bucketsPrefix = true

/-- The names of buckets: small letters, digits, dots and hyphens. -/
structure BucketName (bucket : Key) : Prop where
  chars : ∀ c ∈ bucket.toList, c.isLower || c.isDigit || c == '.' || c == '-'
  nonempty : bucket ≠ ""
  not_dot : bucket ≠ "." ∧ bucket ≠ ".."

/-! ## What a path is made of -/

def IsPart (part : List Char) : Prop :=
  part ≠ [] ∧ part ≠ ['.'] ∧ part ≠ ['.', '.'] ∧ ∀ c ∈ part, 0x20 ≤ c.toNat ∧ c.toNat ≠ 0x7F

theorem isPath_iff_parts {s : Key} (h : s ≠ "") : Path.IsPath s ↔ ∀ part ∈ s.toList.splitOn '/', IsPart part :=
  ⟨fun hs => hs.resolve_left h, .inr⟩

theorem toList_ne_nil {s : Key} (h : s ≠ "") : s.toList ≠ [] := fun hn => h (String.toList_injective hn)

/-- A path neither begins nor ends with a slash. -/
theorem ne_slash_of_isPath {s : Key} (h : Path.IsPath s) {pre post : List Char} (hs : s.toList = pre ++ '/' :: post) :
    pre ≠ [] ∧ post ≠ [] := by
  have hne : s ≠ "" := fun he => by
    rw [he] at hs
    exact absurd hs.symm (by simp)
  have hparts := (isPath_iff_parts hne).mp h
  rw [hs, List.splitOn_append_cons_self] at hparts
  refine ⟨fun he => ?_, fun he => ?_⟩
  · exact (hparts [] (by simp [he])).1 rfl
  · exact (hparts [] (by simp [he])).1 rfl

/-- A path is parsed to itself. -/
theorem parse_of_isPath {s : Key} (h : Path.IsPath s) : Path.parse s = some s := by
  have hhead : s.toList.head? ≠ some '/' := fun hh => by
    obtain ⟨rest, hs⟩ := List.head?_eq_some_iff.mp hh
    exact (ne_slash_of_isPath h (hs : s.toList = [] ++ _)).1 rfl
  have hlast : s.toList.getLast? ≠ some '/' := fun hl => by
    obtain ⟨rest, hs⟩ := List.getLast?_eq_some_iff.mp hl
    exact (ne_slash_of_isPath h (hs : s.toList = _ ++ [_])).2 rfl
  unfold Path.parse
  dsimp only
  rw [if_neg hhead]
  by_cases hnil : s.toList = []
  · have hs : s = "" := String.toList_injective hnil
    rw [if_pos hnil, hs]
  · rw [if_neg hnil, if_neg hlast, String.ofList_toList, if_pos ⟨hnil, (Path.isPath_iff s).mpr h⟩]

theorem isPath_of_parse {s p : Key} (h : Path.parse s = some p) : Path.IsPath p := by
  unfold Path.parse at h
  dsimp only at h
  generalize (if s.toList.head? = some '/' then s.toList.tail else s.toList) = stripped at h
  by_cases hnil : stripped = []
  · rw [if_pos hnil] at h
    exact .inl (Option.some.inj h).symm
  · rw [if_neg hnil] at h
    generalize (if stripped.getLast? = some '/' then stripped.dropLast else stripped) = body at h
    by_cases hp : body ≠ [] ∧ Path.isPath (String.ofList body) = true
    · rw [if_pos hp] at h
      rw [← Option.some.inj h]
      exact (Path.isPath_iff _).mp hp.2
    · rw [if_neg hp] at h
      cases h

theorem hexDigit_printable : ∀ n < 16, 0x20 ≤ (Path.hexDigit n).toNat ∧ (Path.hexDigit n).toNat ≠ 0x7F := by decide

/-- Encoded characters are no control characters. -/
theorem printable_encodeChar {c d : Char} (h : d ∈ Path.encodeChar c) : 0x20 ≤ d.toNat ∧ d.toNat ≠ 0x7F := by
  unfold Path.encodeChar at h
  split at h
  · obtain ⟨b, -, hb⟩ := List.mem_flatMap.mp h
    have hlt : b.toNat < 256 := b.toNat_lt
    simp only [Path.encodeByte, List.mem_cons, List.not_mem_nil, or_false] at hb
    rcases hb with rfl | rfl | rfl
    · decide
    · exact hexDigit_printable _ (by omega)
    · exact hexDigit_printable _ (by omega)
  · next hc =>
    rw [List.mem_singleton.mp h]
    simp only [Bool.or_eq_true, decide_eq_true_eq, not_or, Nat.not_lt, Nat.not_le] at hc
    omega

theorem percent_of_encodeChar {c d : Char} {l : List Char} (h : Path.encodeChar c = d :: l) (hne : d ≠ '%') : c = d ∧ l = [] := by
  unfold Path.encodeChar at h
  split at h
  · obtain ⟨b, bs, hb⟩ := List.exists_cons_of_ne_nil (@String.utf8EncodeChar_ne_nil c)
    rw [hb, List.flatMap_cons, Path.encodeByte, List.cons_append] at h
    exact absurd (List.cons.inj h).1.symm hne
  · have h := List.cons.inj h
    exact ⟨h.1, h.2.symm⟩

/-- Nothing but dots is encoded as dots. -/
theorem eq_of_flatMap_encodeChar_dots {l : List Char} {n : Nat} (h : l.flatMap Path.encodeChar = List.replicate n '.') :
    l = List.replicate n '.' := by
  induction l generalizing n with
  | nil =>
    cases n with
    | zero => rfl
    | succ n => cases h
  | cons c l ih =>
    rw [List.flatMap_cons] at h
    obtain ⟨d, e, he⟩ := List.exists_cons_of_ne_nil (Path.encodeChar_ne_nil c)
    rw [he, List.cons_append] at h
    cases n with
    | zero => cases h
    | succ n =>
      rw [List.replicate_succ] at h
      obtain ⟨hd, hl⟩ := List.cons.inj h
      obtain ⟨hc, rfl⟩ := percent_of_encodeChar he (by rw [hd]; decide)
      rw [List.nil_append] at hl
      rw [List.replicate_succ, hc, hd, ih hl]

theorem printable_of_all {l : List Char} (h : (l.all fun c => decide (0x20 ≤ c.toNat) && decide (c.toNat ≠ 0x7F)) = true) :
    ∀ c ∈ l, 0x20 ≤ c.toNat ∧ c.toNat ≠ 0x7F := fun c hc => by
  simpa using List.all_eq_true.mp h c hc

theorem isPart_encodePart {part : List Char} (h : part ≠ []) : IsPart (Path.encodePart part) := by
  have hchars : ∀ c ∈ Path.encodePart part, 0x20 ≤ c.toNat ∧ c.toNat ≠ 0x7F := by
    unfold Path.encodePart
    split
    · exact printable_of_all (by decide)
    · split
      · exact printable_of_all (by decide)
      · intro c hc
        obtain ⟨d, -, hd⟩ := List.mem_flatMap.mp hc
        exact printable_encodeChar hd
  refine ⟨Path.encodePart_ne_nil h, fun he => ?_, fun he => ?_, hchars⟩
  · unfold Path.encodePart at he
    split at he
    · cases he
    · split at he
      · cases he
      · next h1 _ => exact h1 (eq_of_flatMap_encodeChar_dots (n := 1) he)
  · unfold Path.encodePart at he
    split at he
    · cases he
    · split at he
      · cases he
      · next _ h2 => exact h2 (eq_of_flatMap_encodeChar_dots (n := 2) he)

/-- What is encoded is a path. -/
theorem isPath_fromStr (s : Key) : Path.IsPath (Path.fromStr s) := by
  by_cases hnil : (Path.segments s).map Path.encodePart = []
  · left
    unfold Path.fromStr
    rw [hnil]
    rfl
  · right
    have hslash : ∀ l ∈ (Path.segments s).map Path.encodePart, '/' ∉ l := by
      intro l hl
      obtain ⟨p, -, rfl⟩ := List.mem_map.mp hl
      exact Path.slash_notMem_encodePart p
    show ∀ part ∈ (Path.fromStr s).toList.splitOn '/', IsPart part
    unfold Path.fromStr
    rw [String.toList_ofList, List.splitOn_intercalate '/' hslash hnil]
    intro part hpart
    obtain ⟨p, hp, rfl⟩ := List.mem_map.mp hpart
    exact isPart_encodePart (by simpa using (List.mem_filter.mp hp).2)

theorem isPath_rawPath (s : Key) : Path.IsPath (rawPath s) := by
  unfold rawPath
  cases h : Path.parse s with
  | none => exact isPath_fromStr s
  | some p => exact isPath_of_parse h

theorem rawPath_of_isPath {s : Key} (h : Path.IsPath s) : rawPath s = s := by
  rw [rawPath, parse_of_isPath h, Option.getD_some]

/-- A slash behind a path is dropped. -/
theorem rawPath_slash {p : Key} (h : Path.IsPath p) (hne : p ≠ "") : rawPath (p ++ "/") = p := by
  have hlist : (p ++ "/").toList = p.toList ++ ['/'] := by
    rw [String.toList_append]
    rfl
  have hnil := toList_ne_nil hne
  have hhead : (p.toList ++ ['/']).head? ≠ some '/' := by
    rw [List.head?_append_of_ne_nil _ hnil]
    intro hh
    obtain ⟨rest, hs⟩ := List.head?_eq_some_iff.mp hh
    exact (ne_slash_of_isPath h (hs : p.toList = [] ++ _)).1 rfl
  have hlast : (p.toList ++ ['/']).getLast? = some '/' := List.getLast?_concat
  unfold rawPath Path.parse
  dsimp only
  rw [hlist, if_neg hhead, if_neg (List.concat_ne_nil _ _), if_pos hlast, List.dropLast_concat, String.ofList_toList,
    if_pos ⟨hnil, (Path.isPath_iff p).mpr h⟩, Option.getD_some]

/-- What a path has before a slash is a path. -/
theorem isPath_before_slash {s : Key} (h : Path.IsPath s) {pre post : List Char} (hs : s.toList = pre ++ '/' :: post) :
    Path.IsPath (String.ofList pre) ∧ String.ofList pre ≠ "" := by
  have hne : s ≠ "" := fun he => by
    rw [he] at hs
    exact absurd hs.symm (by simp)
  have hpre : String.ofList pre ≠ "" := fun he => (ne_slash_of_isPath h hs).1 (by
    have hnil := congrArg String.toList he
    rwa [String.toList_ofList] at hnil)
  have hparts := (isPath_iff_parts hne).mp h
  rw [hs, List.splitOn_append_cons_self] at hparts
  refine ⟨(isPath_iff_parts hpre).mpr ?_, hpre⟩
  rw [String.toList_ofList]
  exact fun part hm => hparts part (List.mem_append_left _ hm)

/-! ## Buckets -/

theorem toNat_of_isLower {c : Char} (h : c.isLower = true) : 97 ≤ c.toNat ∧ c.toNat ≤ 122 := by
  have hval : (decide (c.val ≥ 97) && decide (c.val ≤ 122)) = true := h
  simpa [UInt32.le_iff_toNat_le] using hval

theorem BucketName.isPart {bucket : Key} (h : BucketName bucket) : IsPart bucket.toList ∧ '/' ∉ bucket.toList := by
  have hchar : ∀ c : Char, (c.isLower || c.isDigit || c == '.' || c == '-') = true → 0x20 ≤ c.toNat ∧ c.toNat ≠ 0x7F ∧ c ≠ '/' := by
    intro c hc
    simp only [Bool.or_eq_true, beq_iff_eq] at hc
    rcases hc with ((hc | hc) | rfl) | rfl
    · have hle := toNat_of_isLower hc
      exact ⟨by omega, by omega, fun he => by rw [he] at hle; exact absurd hle.1 (by decide)⟩
    · have hle : 48 ≤ c.toNat ∧ c.toNat ≤ 57 := by
        simpa [Char.isDigit, UInt32.le_iff_toNat_le] using hc
      exact ⟨by omega, by omega, fun he => by rw [he] at hle; exact absurd hle.1 (by decide)⟩
    · decide
    · decide
  refine ⟨⟨toList_ne_nil h.nonempty, fun he => ?_, fun he => ?_, fun c hc => ?_⟩, fun hm => (hchar _ (h.chars _ hm)).2.2 rfl⟩
  · exact h.not_dot.1 (String.toList_injective he)
  · exact h.not_dot.2 (String.toList_injective he)
  · exact ⟨(hchar c (h.chars c hc)).1, (hchar c (h.chars c hc)).2.1⟩

theorem toList_inBucket (bucket m : Key) : (bucket ++ "/" ++ m).toList = bucket.toList ++ '/' :: m.toList := by
  rw [String.toList_append, String.toList_append, List.append_assoc]
  rfl

theorem isPath_inBucket {bucket m : Key} (hb : BucketName bucket) : Path.IsPath (bucket ++ "/" ++ m) ↔ m ≠ "" ∧ Path.IsPath m := by
  have hne : bucket ++ "/" ++ m ≠ "" := fun he => by
    have := congrArg String.toList he
    rw [toList_inBucket] at this
    exact absurd this (by simp)
  obtain ⟨hpart, hslash⟩ := hb.isPart
  rw [isPath_iff_parts hne, toList_inBucket, List.splitOn_append_cons_self_of_not_mem hslash, List.forall_mem_cons]
  constructor
  · intro h
    have hm : m ≠ "" := fun he => (h.2 [] (by rw [he]; exact List.mem_singleton_self _)).1 rfl
    exact ⟨hm, (isPath_iff_parts hm).mpr h.2⟩
  · intro h
    exact ⟨hpart, (isPath_iff_parts h.1).mp h.2⟩

theorem stripPrefix_eq_some {s pre r : Key} : stripPrefix s pre = some r ↔ s = pre ++ r := by
  unfold stripPrefix startsWith
  constructor
  · intro h
    split at h
    · next hp =>
      obtain ⟨l, hl⟩ := List.isPrefixOf_iff_prefix.mp hp
      rw [← hl, List.drop_left] at h
      rw [← Option.some.inj h]
      exact String.toList_injective (by rw [String.toList_append, String.toList_ofList, hl])
    · cases h
  · rintro rfl
    rw [String.toList_append, if_pos (List.isPrefixOf_iff_prefix.mpr (List.prefix_append _ _)), List.drop_left, String.ofList_toList]

theorem endsWith_iff {s suffix : Key} : endsWith s suffix = true ↔ ∃ l, s = l ++ suffix := by
  unfold endsWith
  rw [List.isSuffixOf_iff_suffix]
  constructor
  · intro h
    obtain ⟨l, hl⟩ := h
    exact ⟨String.ofList l, String.toList_injective (by rw [String.toList_append, String.toList_ofList, hl])⟩
  · rintro ⟨l, rfl⟩
    rw [String.toList_append]
    exact List.suffix_append _ _

theorem not_endsWith_slash {s : Key} (h : Path.IsPath s) : ¬ endsWith s "/" = true := by
  intro he
  obtain ⟨l, rfl⟩ := endsWith_iff.mp he
  have hl : (l ++ "/").toList = l.toList ++ ['/'] := by
    rw [String.toList_append]
    rfl
  exact (ne_slash_of_isPath h hl).2 rfl

/-! ## Keys and their paths -/

theorem dirMarkSuffix_eq : dirMarkSuffix = "/" ++ dirMark := by decide

theorem marked_of_slash {key : Key} (h : endsWith key "/" = true) : marked key = key ++ dirMark := if_pos h

theorem exists_marked (key : Key) : ∃ tail, (marked key).toList = key.toList ++ tail := by
  unfold marked
  split
  · exact ⟨dirMark.toList, String.toList_append ..⟩
  · exact ⟨[], (List.append_nil _).symm⟩

theorem marked_of_not {key : Key} (h : ¬ endsWith key "/" = true) : marked key = key := if_neg h

theorem take_unmarked (key : Key) :
    String.ofList ((key ++ dirMark).toList.take ((key ++ dirMark).toList.length - dirMark.toList.length)) = key := by
  rw [String.toList_append, List.length_append, Nat.add_sub_cancel, List.take_left, String.ofList_toList]

/-- What a path is listed as is put back on it. -/
theorem marked_of_unmarked {raw key : Key} (hraw : ¬ endsWith raw "/" = true) (h : unmarked raw = some key) : marked key = raw := by
  unfold unmarked at h
  split at h
  · next hsuffix =>
    obtain ⟨l, rfl⟩ := endsWith_iff.mp hsuffix
    rw [dirMarkSuffix_eq, ← String.append_assoc] at h ⊢
    rw [take_unmarked] at h
    obtain rfl := Option.some.inj h
    exact marked_of_slash (endsWith_iff.mpr ⟨l, rfl⟩)
  · split at h
    · cases h
    · obtain rfl := Option.some.inj h
      exact marked_of_not hraw

theorem unmarked_marked {key : Key} (h : ¬ endsWith key dirMarkSuffix = true ∧ key ≠ dirMark) : unmarked (marked key) = some key := by
  unfold unmarked
  by_cases hslash : endsWith key "/" = true
  · obtain ⟨l, hl⟩ := endsWith_iff.mp hslash
    have hsuffix : endsWith (marked key) dirMarkSuffix = true := by
      rw [marked_of_slash hslash, endsWith_iff]
      exact ⟨l, by rw [hl, dirMarkSuffix_eq, String.append_assoc]⟩
    rw [if_pos hsuffix, marked_of_slash hslash, take_unmarked]
  · rw [marked_of_not hslash, if_neg h.1, if_neg]
    rintro (he | he)
    · exact h.2 he
    · obtain ⟨l, hl⟩ := endsWith_iff.mp he
      exact hslash (endsWith_iff.mpr ⟨l ++ dirMarkSuffix, by rw [hl, String.append_assoc]⟩)

variable {bucket key : Key}

theorem objKey_of_plain (hb : BucketName bucket) (h : Plain key) : objKey bucket key = bucket ++ "/" ++ marked key := by
  have hne : marked key ≠ "" := by
    intro he
    by_cases hslash : endsWith key "/" = true
    · rw [marked_of_slash hslash] at he
      have := congrArg (fun s => s.toList.length) he
      rw [String.toList_append, List.length_append] at this
      exact absurd this (by simp [dirMark])
    · rw [marked_of_not hslash] at he
      exact h.nonempty he
  exact rawPath_of_isPath ((isPath_inBucket hb).mpr ⟨hne, h.path⟩)

theorem isPath_objKey (bucket key : Key) : Path.IsPath (objKey bucket key) := isPath_rawPath _

/-- A path that is listed under a key is the path of that key, and the key is plain. -/
theorem of_listedKey (hb : BucketName bucket) {location : Key} (hpath : Path.IsPath location)
    (h : listedKey bucket location = some key) : Plain key ∧ objKey bucket key = location := by
  unfold listedKey at h
  rw [Option.filter_eq_some_iff, Option.bind_eq_some_iff] at h
  obtain ⟨⟨raw, hraw, hkey⟩, hvisible⟩ := h
  obtain rfl := stripPrefix_eq_some.mp hraw
  obtain ⟨hne, hrest⟩ := (isPath_inBucket hb).mp hpath
  have hmarked : marked key = raw := marked_of_unmarked (not_endsWith_slash hrest) hkey
  have hplain : Plain key := by
    refine ⟨by rw [hmarked]; exact hrest, fun he => ?_, ?_, by simpa using hvisible⟩
    · subst he
      rw [show marked "" = "" from rfl] at hmarked
      exact hne hmarked.symm
    · -- a key that ends with the marker would have lost it
      have hslash : ∀ l, key = l ++ dirMark → ¬ endsWith key "/" = true := by
        intro l hl he
        obtain ⟨l', hl'⟩ := endsWith_iff.mp he
        have := congrArg (fun s => s.toList.getLast?) (hl.symm.trans hl')
        simp only [String.toList_append] at this
        have hd : dirMark.toList = "__DIRMARK_".toList ++ ['_'] := by decide
        have hs : ("/" : Key).toList = ['/'] := rfl
        rw [hd, hs, ← List.append_assoc, List.getLast?_concat, List.getLast?_concat] at this
        exact absurd this (by decide)
      refine ⟨fun he => ?_, fun he => ?_⟩
      · obtain ⟨l, hl⟩ := endsWith_iff.mp he
        rw [dirMarkSuffix_eq, ← String.append_assoc] at hl
        have hm := marked_of_not (hslash _ hl)
        rw [hmarked] at hm
        subst hm
        unfold unmarked at hkey
        rw [if_pos he, hl, take_unmarked] at hkey
        have := congrArg (fun s => s.toList.length) (Option.some.inj hkey)
        simp only [String.toList_append, List.length_append] at this
        exact absurd this (by simp [dirMark])
      · have hm := marked_of_not (hslash "" (by rw [he]; rfl))
        rw [hmarked] at hm
        subst hm
        subst he
        exact absurd hkey (by decide)
  exact ⟨hplain, by rw [objKey_of_plain hb hplain, hmarked]⟩

/-- The path of a key is listed under the key if and only if the key is plain. -/
theorem listedKey_objKey_iff (hb : BucketName bucket) : listedKey bucket (objKey bucket key) = some key ↔ Plain key := by
  refine ⟨fun h => (of_listedKey hb (isPath_objKey _ _) h).1, fun h => ?_⟩
  unfold listedKey
  rw [objKey_of_plain hb h, stripPrefix_eq_some.mpr rfl, Option.bind_some, unmarked_marked h.unmarked, Option.filter_some,
    if_pos (by simpa using h.visible)]

end ObjStr.S3
