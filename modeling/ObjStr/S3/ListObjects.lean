/-
  ObjStr.S3.ListObjects — `list_objects`, the first version of the listing (`objstrd/src/adapter.rs`).

  A request is handed to `list_objects_v2`, with the marker as `start_after`. The marker of the next page is found in the page
  as it is answered: the greater of its last key and its last common prefix, which have been percent-encoded by then if the
  client asked for it. A percent sign sorts before letters and digits, so the greater text need not be that of the last entry.
  - `urlDecode_urlEncode`: what a client makes of an encoded text.
  - `answered_page`: the answer to a request shows a page of the entries, and its marker is an entry of it (`nextMarker`).
  - `markers_are_exact_iff`: a client that follows the markers receives every key and every common prefix once if and only
    if encoding keeps the order of the two at the end of each page but the last (`KeepsOrder`).
  - `an_encoded_key_is_listed_twice`: a page that ends with a common prefix and a key behind it.
-/

import ObjStr.S3.Pages

namespace ObjStr.S3

open ObjStr.Lib ObjStr.Raw ObjStr.Sharded

/-! ## The handler -/

structure ListV1Request where
  bucket : Key
  pre : Option Key := none
  delimiter : Option Key := none
  maxKeys : Option Int := none
  marker : Option Key := none
  urlEncoding : Bool := false
  /-- `allow-unordered=true` in the query. -/
  allowUnordered : Bool := false

def ListV1Request.toV2 (req : ListV1Request) : ListRequest where
  bucket := req.bucket
  pre := req.pre
  delimiter := req.delimiter
  maxKeys := req.maxKeys
  startAfter := req.marker
  fetchOwner := true
  urlEncoding := req.urlEncoding

structure ListV1Response where
  contents : Option (List ListedObject)
  commonPrefixes : Option (List Key)
  delimiter : Option Key
  urlEncoding : Bool
  name : Key
  pre : Option Key
  maxKeys : Int
  isTruncated : Bool
  nextMarker : Option Key

def lastShown (r : ListResponse) : Option Key :=
  match (r.contents.bind List.getLast?).map ListedObject.key, r.commonPrefixes.bind List.getLast? with
  | some key, some pre => some (if pre < key then key else pre)
  | some key, none => some key
  | none, some pre => some pre
  | none, none => none

def toV1 (hasDelimiter : Bool) (r : ListResponse) : ListV1Response where
  contents := r.contents
  commonPrefixes := r.commonPrefixes
  delimiter := r.delimiter
  urlEncoding := r.urlEncoding
  name := r.name
  pre := r.pre
  maxKeys := r.maxKeys
  isTruncated := r.isTruncated
  nextMarker := if r.isTruncated && hasDelimiter then lastShown r else none

def Adapter.listObjects (a : Adapter) (req : ListV1Request) : Except S3Error ListV1Response :=
  if req.allowUnordered && req.delimiter.isSome then
    .error (.invalidArgument "allow-unordered may not be used with delimiter")
  else (a.listObjectsV2 req.toV2).map (toV1 (req.delimiter.any fun d => d ≠ ""))

/-! ## The client -/

def hexValue (c : Char) : Option Nat :=
  if '0' ≤ c ∧ c ≤ '9' then some (c.toNat - 0x30)
  else if 'A' ≤ c ∧ c ≤ 'F' then some (c.toNat - 0x37)
  else if 'a' ≤ c ∧ c ≤ 'f' then some (c.toNat - 0x57)
  else none

/-- The bytes of a percent-encoded text; what is no escape stands for itself. -/
def urlDecodeBytes : List Char → Bytes
  | '%' :: a :: b :: rest =>
    match hexValue a, hexValue b with
    | some x, some y => UInt8.ofNat (16 * x + y) :: urlDecodeBytes rest
    | _, _ => String.utf8EncodeChar '%' ++ urlDecodeBytes (a :: b :: rest)
  | c :: rest => String.utf8EncodeChar c ++ urlDecodeBytes rest
  | [] => []

def urlDecode (s : Key) : Key := ofKeyBytes (urlDecodeBytes s.toList)

def ListV1Request.read (req : ListV1Request) (shown : Key) : Key := if req.urlEncoding then urlDecode shown else shown

/-- The answers of a client that asks again, with the marker of the last answer, until an answer is not truncated. -/
def Adapter.listAllV1 (a : Adapter) : Nat → ListV1Request → Option (Except S3Error (List ListV1Response))
  | 0, _ => none
  | fuel + 1, req =>
    match a.listObjects req with
    | .error e => some (.error e)
    | .ok r =>
      if r.isTruncated then
        (a.listAllV1 fuel { req with marker := r.nextMarker.map req.read }).map fun rest => rest.map (r :: ·)
      else some (.ok [r])

def ListV1Request.keysOf (req : ListV1Request) (answers : List ListV1Response) : List Key :=
  answers.flatMap fun r => (r.contents.getD []).map fun o => req.read o.key

def ListV1Request.prefixesOf (req : ListV1Request) (answers : List ListV1Response) : List Key :=
  answers.flatMap fun r => (r.commonPrefixes.getD []).map req.read

def Adapter.Matches (a : Adapter) (req : ListV1Request) (key : Key) : Prop :=
  a.Stores req.bucket key ∧ startsWith key req.toV2.prefixStr = true

/-- The client comes to an end, and has received once each key behind the marker that is in no group, and each such group. -/
def Adapter.ListsOnce (a : Adapter) (req : ListV1Request) : Prop :=
  ∃ fuel answers, a.listAllV1 fuel req = some (.ok answers) ∧
    (req.keysOf answers).Nodup ∧ (req.prefixesOf answers).Nodup ∧
    (∀ key, key ∈ req.keysOf answers ↔ a.Matches req key ∧ req.toV2.groupOf key = none ∧ ∀ m, req.marker = some m → m < key) ∧
    ∀ group, group ∈ req.prefixesOf answers ↔
      (∃ key, a.Matches req key ∧ req.toV2.groupOf key = some group) ∧ ∀ m, req.marker = some m → m < group

/-! ## Encoded texts -/

theorem hexValue_hexDigit : ∀ n < 16, hexValue (Path.hexDigit n) = some n := by decide

theorem urlDecodeBytes_encodeByte (b : UInt8) (rest : List Char) :
    urlDecodeBytes (Path.encodeByte b ++ rest) = b :: urlDecodeBytes rest := by
  have hlt : b.toNat < 256 := b.toNat_lt
  show urlDecodeBytes ('%' :: Path.hexDigit (b.toNat / 16) :: Path.hexDigit (b.toNat % 16) :: rest) = _
  rw [urlDecodeBytes]
  simp only [hexValue_hexDigit _ (by omega : b.toNat / 16 < 16), hexValue_hexDigit _ (by omega : b.toNat % 16 < 16)]
  rw [Nat.div_add_mod, UInt8.ofNat_toNat]

theorem urlDecodeBytes_encodeBytes (bs : Bytes) (rest : List Char) :
    urlDecodeBytes (bs.flatMap Path.encodeByte ++ rest) = bs ++ urlDecodeBytes rest := by
  induction bs with
  | nil => rfl
  | cons b bs ih => rw [List.flatMap_cons, List.append_assoc, urlDecodeBytes_encodeByte, ih, List.cons_append]

theorem urlDecodeBytes_cons {c : Char} (h : c ≠ '%') (rest : List Char) :
    urlDecodeBytes (c :: rest) = String.utf8EncodeChar c ++ urlDecodeBytes rest := by
  rw [urlDecodeBytes]
  exact fun _ _ _ he => absurd he h

/-- A client reads what was encoded. -/
theorem urlDecode_urlEncode (s : Key) : urlDecode (urlEncode s) = s := by
  have hbytes : urlDecodeBytes (urlEncode s).toList = keyBytes s := by
    rw [urlEncode, String.toList_ofList, keyBytes_eq]
    induction s.toList with
    | nil => rfl
    | cons c rest ih =>
      rw [List.flatMap_cons, List.flatMap_cons]
      split
      · next hkept =>
        rw [List.singleton_append, urlDecodeBytes_cons (fun he => by rw [he] at hkept; exact absurd hkept (by decide)), ih]
      · rw [urlDecodeBytes_encodeBytes, ih]
  rw [urlDecode, hbytes, ofKeyBytes_keyBytes]

theorem ListV1Request.read_shown (req : ListV1Request) (key : Key) : req.read (req.toV2.shown key) = key := by
  unfold ListV1Request.read ListRequest.shown
  show (if req.urlEncoding then urlDecode (if req.urlEncoding then urlEncode key else key) else _) = _
  by_cases h : req.urlEncoding = true
  · rw [if_pos h, if_pos h, urlDecode_urlEncode]
  · rw [if_neg h]
    show (if req.urlEncoding then urlEncode key else key) = key
    rw [if_neg h]

/-! ## What an answer shows -/

def Adapter.entriesV1 (a : Adapter) (req : ListV1Request) : List Key :=
  S3.entries { req.toV2 with startAfter := none } (a.backend.listWithMeta (some (rawPath req.toV2.dirPrefix)))

namespace ListV1Request

variable (req : ListV1Request)

def keysIn (items : List Key) : List Key := items.filter fun k => (req.toV2.groupOf k).isNone

def prefixesIn (items : List Key) : List Key := items.filter fun k => (req.toV2.groupOf k).isSome

/-- The marker that is found in a page: the greater one, as shown, of the last key and the last common prefix. -/
def nextMarker (items : List Key) : Option Key :=
  match (req.keysIn items).getLast?, (req.prefixesIn items).getLast? with
  | some key, some pre => some (if req.toV2.shown pre < req.toV2.shown key then key else pre)
  | some key, none => some key
  | none, some pre => some pre
  | none, none => none

structure Shows (r : ListV1Response) (items : List Key) : Prop where
  keys : (r.contents.getD []).map ListedObject.key = (req.keysIn items).map req.toV2.shown
  prefixes : r.commonPrefixes.getD [] = (req.prefixesIn items).map req.toV2.shown

end ListV1Request

/-- What a marker leaves is what lies behind it. -/
theorem entries_marker (req : ListRequest) {listing : List (ObjectMeta × UInt16)} (hpaths : ∀ item ∈ listing, Path.IsPath item.1.location)
    (honce : (listing.map (·.1.location)).Nodup) (htoken : req.continuationToken = none) :
    entries req listing = behind req.startAfter (entries { req with startAfter := none } listing) := by
  refine List.Pairwise.eq_of_mem_iff (pairwise_entries _ hpaths honce) (pairwise_behind (pairwise_entries _ hpaths honce) _) fun a => ?_
  rw [mem_behind, mem_entries, mem_entries]
  have hbehind : req.isBehind a = true ↔
      ListRequest.isBehind { req with startAfter := none } a = true ∧ ∀ c, req.startAfter = some c → c < a := by
    unfold ListRequest.isBehind
    simp only [htoken, Option.all_none, Bool.and_true, Option.all_eq_true, decide_eq_true_eq, true_and]
  rw [hbehind]
  -- neither the candidates nor the groups know of the marker
  exact ⟨fun h => ⟨⟨h.1.1, h.2⟩, h.1.2⟩, fun h => ⟨⟨h.1.1, h.2⟩, h.1.2⟩⟩

/-- What a client reads as the marker. -/
theorem read_lastShown (req : ListV1Request) {r : ListResponse} {items : List Key}
    (hkeys : (r.contents.getD []).map ListedObject.key = (req.keysIn items).map req.toV2.shown)
    (hprefixes : r.commonPrefixes.getD [] = (req.prefixesIn items).map req.toV2.shown) :
    (lastShown r).map req.read = req.nextMarker items := by
  have hlast : ∀ {α : Type} (o : Option (List α)), o.bind List.getLast? = (o.getD []).getLast? := fun o => by cases o <;> rfl
  unfold lastShown ListV1Request.nextMarker
  rw [hlast, hlast, ← List.getLast?_map, hkeys, hprefixes, List.getLast?_map, List.getLast?_map]
  cases (req.keysIn items).getLast? with
  | none =>
    cases (req.prefixesIn items).getLast? with
    | none => rfl
    | some group => exact congrArg some (req.read_shown group)
  | some key =>
    cases (req.prefixesIn items).getLast? with
    | none => exact congrArg some (req.read_shown key)
    | some group =>
      simp only [Option.map_some]
      split
      · rw [req.read_shown]
      · rw [req.read_shown]

/-- The requests of the first version that are answered page by page. -/
structure ListV1Request.Answered (req : ListV1Request) (buckets : List Key) : Prop where
  bucket : req.bucket ∈ buckets
  delimiter : ∃ d, req.delimiter = some d ∧ d ≠ ""
  ordered : req.allowUnordered = false
  limit : 1 ≤ req.toV2.limit

/-- The answer shows a page of the entries. -/
theorem Adapter.answered_page (a : Adapter) {req : ListV1Request} (h : req.Answered a.buckets) : ∃ r, a.listObjects req = .ok r ∧
    req.Shows r (page req.toV2.limit.toNat req.marker (a.entriesV1 req)) ∧
    (r.isTruncated = true ↔ req.toV2.limit.toNat < (behind req.marker (a.entriesV1 req)).length) ∧
    (r.isTruncated = true → r.nextMarker.map req.read = req.nextMarker (page req.toV2.limit.toNat req.marker (a.entriesV1 req))) := by
  have hpaths := a.backend.listed_paths (some (rawPath req.toV2.dirPrefix))
  have honce := a.backend.listed_once (some (rawPath req.toV2.dirPrefix))
  obtain ⟨-, hmore, -⟩ := shown_page req.toV2 hpaths honce (a.etagOf req.bucket) (by have := h.limit; omega)
  obtain ⟨hkeys, hprefixes⟩ := shown_parts req.toV2 hpaths honce (a.etagOf req.bucket)
  rw [entries_marker req.toV2 hpaths honce rfl] at hmore hkeys hprefixes
  obtain ⟨d, hd, hne⟩ := h.delimiter
  have hdelim : (req.delimiter.any fun d => d ≠ "") = true := by simp [hd, hne]
  refine ⟨toV1 true (listPage req.toV2 (a.backend.listWithMeta (some (rawPath req.toV2.dirPrefix))) (a.etagOf req.bucket)),
    ?_, ⟨hkeys, hprefixes⟩, hmore, fun htrunc => ?_⟩
  · unfold Adapter.listObjects Adapter.listObjectsV2
    rw [hdelim, h.ordered, if_neg (by simp), if_pos (show req.toV2.bucket ∈ a.buckets from h.bucket)]
    rfl
  · have htrunc : (listPage req.toV2 (a.backend.listWithMeta (some (rawPath req.toV2.dirPrefix))) (a.etagOf req.bucket)).isTruncated = true :=
      htrunc
    show (if (_ && true) = true then lastShown _ else none).map req.read = _
    rw [Bool.and_true, if_pos htrunc]
    exact read_lastShown req hkeys hprefixes

/-! ## Following the markers -/

/-- The answers show the pages of a client that goes on behind the markers that are found in them. -/
theorem Adapter.listAllV1_walk (a : Adapter) (fuel : Nat) (req : ListV1Request) (h : req.Answered a.buckets) :
    (∀ answers, a.listAllV1 fuel req = some (.ok answers) →
      ∃ ps, walk req.nextMarker req.toV2.limit.toNat (a.entriesV1 req) fuel req.marker = some ps ∧ List.Forall₂ req.Shows answers ps) ∧
    ∀ ps, walk req.nextMarker req.toV2.limit.toNat (a.entriesV1 req) fuel req.marker = some ps →
      ∃ answers, a.listAllV1 fuel req = some (.ok answers) ∧ List.Forall₂ req.Shows answers ps := by
  induction fuel generalizing req with
  | zero => exact ⟨(fun answers ha => by cases ha), fun ps hps => by cases hps⟩
  | succ fuel ih =>
    obtain ⟨r, hr, hshows, hmore, hnext⟩ := a.answered_page h
    unfold Adapter.listAllV1 walk
    rw [hr]
    dsimp only
    by_cases htrunc : r.isTruncated = true
    · rw [if_pos htrunc, if_pos (hmore.mp htrunc), hnext htrunc]
      -- with the next marker the request is the same in all but the marker
      obtain ⟨hto, hfrom⟩ := ih { req with marker := req.nextMarker (page req.toV2.limit.toNat req.marker (a.entriesV1 req)) }
        ⟨h.bucket, h.delimiter, h.ordered, h.limit⟩
      constructor
      · intro answers hanswers
        obtain ⟨rest, hrest, hcons⟩ := Option.map_eq_some_iff.mp hanswers
        cases rest with
        | error e => cases hcons
        | ok rest =>
          obtain rfl := Except.ok.inj hcons
          obtain ⟨ps, hps, hall⟩ := hto rest hrest
          exact ⟨_ :: ps, Option.map_eq_some_iff.mpr ⟨ps, hps, rfl⟩, .cons hshows (hall.imp fun _ _ hs => ⟨hs.keys, hs.prefixes⟩)⟩
      · intro ps hps
        obtain ⟨rest, hrest, rfl⟩ := Option.map_eq_some_iff.mp hps
        obtain ⟨answers, hanswers, hall⟩ := hfrom rest hrest
        exact ⟨r :: answers, Option.map_eq_some_iff.mpr ⟨.ok answers, hanswers, rfl⟩,
          .cons hshows (hall.imp fun _ _ hs => ⟨hs.keys, hs.prefixes⟩)⟩
    · rw [if_neg htrunc, if_neg fun hlt => htrunc (hmore.mpr hlt)]
      constructor
      · intro answers hanswers
        obtain rfl := Except.ok.inj (Option.some.inj hanswers)
        exact ⟨_, rfl, .cons hshows .nil⟩
      · intro ps hps
        obtain rfl := Option.some.inj hps
        exact ⟨_, rfl, .cons hshows .nil⟩

theorem received {req : ListV1Request} {answers : List ListV1Response} {ps : List (List Key)} (h : List.Forall₂ req.Shows answers ps) :
    req.keysOf answers = req.keysIn ps.flatten ∧ req.prefixesOf answers = req.prefixesIn ps.flatten := by
  have hread : ∀ l : List Key, (l.map req.toV2.shown).map req.read = l := fun l => by
    rw [List.map_map]
    exact (List.map_congr_left fun k _ => req.read_shown k).trans (List.map_id _)
  induction h with
  | nil => exact ⟨rfl, rfl⟩
  | @cons r items answers ps hshows _ ih =>
    have hkeys : (r.contents.getD []).map (fun o => req.read o.key) = req.keysIn items := by
      rw [← hread (req.keysIn items), ← hshows.keys, List.map_map]
      rfl
    have hprefixes : (r.commonPrefixes.getD []).map req.read = req.prefixesIn items := by rw [hshows.prefixes, hread]
    unfold ListV1Request.keysOf ListV1Request.prefixesOf ListV1Request.keysIn ListV1Request.prefixesIn at *
    rw [List.flatMap_cons, List.flatMap_cons, List.flatten_cons, List.filter_append, List.filter_append, ih.1, ih.2, hkeys, hprefixes]
    exact ⟨rfl, rfl⟩

theorem Adapter.pairwise_entriesV1 (a : Adapter) (req : ListV1Request) : (a.entriesV1 req).Pairwise (· < ·) :=
  S3.pairwise_entries _ (a.backend.listed_paths _) (a.backend.listed_once _)

/-- The entries are the stored keys that begin with the prefix, and the groups of these. -/
theorem Adapter.mem_entriesV1 (a : Adapter) (req : ListV1Request) (e : Key) : e ∈ a.entriesV1 req ↔
    (a.Matches req e ∧ req.toV2.groupOf e = none) ∨ ∃ key, a.Matches req key ∧ req.toV2.groupOf key = some e := by
  have hcandidates := mem_candidates_iff a req.toV2
  unfold Adapter.entriesV1
  rw [mem_entries]
  have hbehind : ListRequest.isBehind { req.toV2 with startAfter := none } e = true := rfl
  constructor
  · intro h
    obtain ⟨-, c, hc, ⟨rfl, hnone⟩ | hgroup⟩ := h
    · exact .inl ⟨(hcandidates _).mp ⟨c, hc, rfl⟩, hnone⟩
    · exact .inr ⟨c.1, (hcandidates _).mp ⟨c, hc, rfl⟩, hgroup⟩
  · intro h
    rcases h with ⟨hmatch, hnone⟩ | ⟨key, hmatch, hgroup⟩
    · obtain ⟨c, hc, hkey⟩ := (hcandidates _).mpr hmatch
      exact ⟨hbehind, c, hc, .inl ⟨hkey, hnone⟩⟩
    · obtain ⟨c, hc, rfl⟩ := (hcandidates _).mpr hmatch
      exact ⟨hbehind, c, hc, .inr hgroup⟩

namespace ListV1Request

variable (req : ListV1Request)

theorem mem_keysIn {items : List Key} {k : Key} : k ∈ req.keysIn items ↔ k ∈ items ∧ req.toV2.groupOf k = none := by
  rw [keysIn, List.mem_filter, Option.isNone_iff_eq_none]

theorem mem_prefixesIn {items : List Key} {k : Key} : k ∈ req.prefixesIn items ↔ k ∈ items ∧ (req.toV2.groupOf k).isSome = true :=
  List.mem_filter

/-- An entry is a key or a common prefix. -/
theorem mem_parts (items : List Key) (k : Key) : k ∈ items ↔ k ∈ req.keysIn items ∨ k ∈ req.prefixesIn items := by
  rw [mem_keysIn, mem_prefixesIn]
  cases req.toV2.groupOf k <;> simp

theorem nodup_parts (items : List Key) : items.Nodup ↔ (req.keysIn items).Nodup ∧ (req.prefixesIn items).Nodup := by
  constructor
  · intro h
    exact ⟨h.sublist List.filter_sublist, h.sublist List.filter_sublist⟩
  · intro h
    rw [List.nodup_iff_count_le_one]
    intro k
    by_cases hk : (req.toV2.groupOf k).isSome = true
    · rw [← List.count_filter (p := fun k => (req.toV2.groupOf k).isSome) hk]
      exact List.nodup_iff_count_le_one.mp h.2 k
    · rw [Option.not_isSome_iff_eq_none] at hk
      rw [← List.count_filter (p := fun k => (req.toV2.groupOf k).isNone) (by rw [hk]; rfl)]
      exact List.nodup_iff_count_le_one.mp h.1 k

/-- Encoding keeps the order of the last key and the last common prefix, if the page has both. -/
def KeepsOrder (items : List Key) : Prop :=
  ∀ key pre, (req.keysIn items).getLast? = some key → (req.prefixesIn items).getLast? = some pre →
    (req.toV2.shown pre < req.toV2.shown key ↔ pre < key)

/-- The marker is an entry of the page. -/
theorem nextMarker_mem {items : List Key} (h : items ≠ []) : ∃ c ∈ items, req.nextMarker items = some c := by
  have hmem : ∀ {l : List Key} {k}, l.getLast? = some k → k ∈ l := fun h => List.mem_of_getLast? h
  unfold nextMarker
  cases hk : (req.keysIn items).getLast? with
  | none =>
    cases hp : (req.prefixesIn items).getLast? with
    | none =>
      rw [List.getLast?_eq_none_iff] at hk hp
      obtain ⟨k, l, rfl⟩ := List.exists_cons_of_ne_nil h
      rcases (req.mem_parts (k :: l) k).mp List.mem_cons_self with hm | hm
      · rw [hk] at hm
        cases hm
      · rw [hp] at hm
        cases hm
    | some pre => exact ⟨pre, (req.mem_parts _ _).mpr (.inr (hmem hp)), rfl⟩
  | some key =>
    cases hp : (req.prefixesIn items).getLast? with
    | none => exact ⟨key, (req.mem_parts _ _).mpr (.inl (hmem hk)), rfl⟩
    | some pre =>
      dsimp only
      split
      · exact ⟨key, (req.mem_parts _ _).mpr (.inl (hmem hk)), rfl⟩
      · exact ⟨pre, (req.mem_parts _ _).mpr (.inr (hmem hp)), rfl⟩

/-- The marker is the last entry of a page exactly if encoding keeps the order of its two last ones. -/
theorem nextMarker_eq_last_iff {items : List Key} (h : items.Pairwise (· < ·)) :
    req.nextMarker items = items.getLast? ↔ req.KeepsOrder items := by
  unfold nextMarker KeepsOrder
  cases hk : (req.keysIn items).getLast? with
  | none =>
    have hall : req.prefixesIn items = items := by
      rw [List.getLast?_eq_none_iff] at hk
      refine List.filter_eq_self.mpr fun k hm => ?_
      rcases (req.mem_parts items k).mp hm with hm | hm
      · rw [hk] at hm
        cases hm
      · exact (req.mem_prefixesIn.mp hm).2
    refine iff_of_true ?_ (fun key pre he => by cases he)
    rw [hall]
    cases items.getLast? <;> rfl
  | some key =>
    obtain ⟨hkmem, hkmax⟩ := le_last (h.sublist List.filter_sublist) hk
    cases hp : (req.prefixesIn items).getLast? with
    | none =>
      have hall : req.keysIn items = items := by
        rw [List.getLast?_eq_none_iff] at hp
        refine List.filter_eq_self.mpr fun k hm => ?_
        rcases (req.mem_parts items k).mp hm with hm | hm
        · rw [(req.mem_keysIn.mp hm).2]
          rfl
        · rw [hp] at hm
          cases hm
      have hlast : items.getLast? = some key := by rw [← hk, hall]
      refine iff_of_true ?_ (fun key pre _ he => by cases he)
      rw [hlast]
    | some pre =>
      obtain ⟨hpmem, hpmax⟩ := le_last (h.sublist List.filter_sublist) hp
      have hne : key ≠ pre := fun he => by
        have hnone := (req.mem_keysIn.mp hkmem).2
        have hsome := (req.mem_prefixesIn.mp hpmem).2
        rw [← he, hnone] at hsome
        cases hsome
      have hlast : items.getLast? = some (if pre < key then key else pre) := by
        refine getLast?_of_greatest h ?_ fun x hx => ?_
        · rw [req.mem_parts]
          split
          · exact .inl hkmem
          · exact .inr hpmem
        · rcases (req.mem_parts items x).mp hx with hx | hx
          · have hle := hkmax x hx
            split
            · exact hle
            · next hn => exact hle.trans (not_lt.mp hn)
          · have hle := hpmax x hx
            split
            · next hlt => exact hle.trans hlt.le
            · exact hle
      rw [hlast]
      dsimp only
      constructor
      · intro he key' pre' hkey hpre
        obtain rfl := Option.some.inj hkey
        obtain rfl := Option.some.inj hpre
        have he := Option.some.inj he
        by_cases h1 : req.toV2.shown pre < req.toV2.shown key
        · by_cases h2 : pre < key
          · exact iff_of_true h1 h2
          · rw [if_pos h1, if_neg h2] at he
            exact absurd he hne
        · by_cases h2 : pre < key
          · rw [if_neg h1, if_pos h2] at he
            exact absurd he.symm hne
          · exact iff_of_false h1 h2
      · intro hkeeps
        simp only [hkeeps key pre rfl rfl]

end ListV1Request

/-- The client receives everything once exactly if its pages cover the entries behind the marker. -/
theorem Adapter.listsOnce_iff_walk (a : Adapter) {req : ListV1Request} (h : req.Answered a.buckets) : a.ListsOnce req ↔
    ∃ fuel ps, walk req.nextMarker req.toV2.limit.toNat (a.entriesV1 req) fuel req.marker = some ps ∧
      ps.flatten.Perm (behind req.marker (a.entriesV1 req)) := by
  have hnodup : (behind req.marker (a.entriesV1 req)).Nodup :=
    (pairwise_behind (a.pairwise_entriesV1 req) _).imp fun hlt => hlt.ne
  constructor
  · intro hlists
    obtain ⟨fuel, answers, hanswers, hkeys, hprefixes, hmemk, hmemp⟩ := hlists
    obtain ⟨ps, hps, hall⟩ := (a.listAllV1_walk fuel req h).1 answers hanswers
    obtain ⟨hk, hp⟩ := received hall
    refine ⟨fuel, ps, hps, (List.perm_ext_iff_of_nodup ((req.nodup_parts _).mpr ⟨hk ▸ hkeys, hp ▸ hprefixes⟩) hnodup).mpr fun e => ?_⟩
    rw [req.mem_parts, ← hk, ← hp, hmemk, hmemp, mem_behind, a.mem_entriesV1]
    constructor
    · intro he
      rcases he with ⟨hmatch, hnone, hbehind⟩ | ⟨hgroup, hbehind⟩
      · exact ⟨.inl ⟨hmatch, hnone⟩, hbehind⟩
      · exact ⟨.inr hgroup, hbehind⟩
    · intro he
      obtain ⟨⟨hmatch, hnone⟩ | hgroup, hbehind⟩ := he
      · exact .inl ⟨hmatch, hnone, hbehind⟩
      · exact .inr ⟨hgroup, hbehind⟩
  · intro hcovers
    obtain ⟨fuel, ps, hps, hperm⟩ := hcovers
    obtain ⟨answers, hanswers, hall⟩ := (a.listAllV1_walk fuel req h).2 ps hps
    obtain ⟨hk, hp⟩ := received hall
    obtain ⟨hkeys, hprefixes⟩ := (req.nodup_parts _).mp (hperm.nodup_iff.mpr hnodup)
    refine ⟨fuel, answers, hanswers, hk ▸ hkeys, hp ▸ hprefixes, fun key => ?_, fun group => ?_⟩
    · rw [hk, req.mem_keysIn, hperm.mem_iff, mem_behind, a.mem_entriesV1]
      constructor
      · intro he
        obtain ⟨⟨⟨hmatch, -⟩ | ⟨k, -, hgroup⟩, hbehind⟩, hnone⟩ := he
        · exact ⟨hmatch, hnone, hbehind⟩
        · rw [groupOf_group req.toV2 hgroup] at hnone
          cases hnone
      · intro he
        obtain ⟨hmatch, hnone, hbehind⟩ := he
        exact ⟨⟨.inl ⟨hmatch, hnone⟩, hbehind⟩, hnone⟩
    · rw [hp, req.mem_prefixesIn, hperm.mem_iff, mem_behind, a.mem_entriesV1]
      constructor
      · intro he
        obtain ⟨⟨⟨-, hnone⟩ | hgroup, hbehind⟩, hsome⟩ := he
        · rw [hnone] at hsome
          cases hsome
        · exact ⟨hgroup, hbehind⟩
      · intro he
        obtain ⟨⟨k, hmatch, hgroup⟩, hbehind⟩ := he
        refine ⟨⟨.inr ⟨k, hmatch, hgroup⟩, hbehind⟩, ?_⟩
        rw [groupOf_group req.toV2 hgroup]
        rfl

/-- A client receives every key and every common prefix once if and only if encoding keeps the order at the end of each page but
    the last. -/
theorem markers_are_exact_iff (a : Adapter) {req : ListV1Request} (h : req.Answered a.buckets) : a.ListsOnce req ↔
    ∀ k, (k + 1) * req.toV2.limit.toNat < (behind req.marker (a.entriesV1 req)).length →
      req.KeepsOrder (piece req.toV2.limit.toNat k (behind req.marker (a.entriesV1 req))) := by
  have hsorted := a.pairwise_entriesV1 req
  have hlimit := h.limit
  rw [a.listsOnce_iff_walk h, walk_covers_iff hsorted (by omega) (fun p hp => req.nextMarker_mem hp)]
  refine forall₂_congr fun k _ => req.nextMarker_eq_last_iff ?_
  exact (pairwise_behind hsorted _).sublist ((List.take_sublist _ _).trans (List.drop_sublist _ _))

namespace Sample

theorem isPath_z : Path.isPath "b/z" = true := by decide

/-- Two keys and a directory; the first key begins with a colon, which is encoded. -/
def colons : Adapter where
  buckets := ["b"]
  backend := .sharded [.store (store .s3Like [listed "b/1/x" (by decide), listed "b/:k" (by decide), listed "b/z" isPath_z])]
  etagOf _ _ := none

def encodedPage (n : Int) : ListV1Request := { bucket := "b", delimiter := some "/", maxKeys := some n, urlEncoding := true }

theorem encodedPage_answered {a : Adapter} {n : Int} (hb : "b" ∈ a.buckets) (h : 1 ≤ n) : (encodedPage n).Answered a.buckets :=
  ⟨hb, ⟨"/", rfl, by decide⟩, rfl, h⟩

/-- The size of the pages has no part in the entries. -/
theorem entriesV1_encodedPage {a : Adapter} {keys prefixes : List Key}
    (hkeys : (listedObjects (encodedPage 2).toV2 (a.backend.listWithMeta (some (rawPath (encodedPage 2).toV2.dirPrefix)))).map
      ListedObject.key = keys)
    (hprefixes : listedPrefixes (encodedPage 2).toV2 (a.backend.listWithMeta (some (rawPath (encodedPage 2).toV2.dirPrefix))) = prefixes)
    (n : Int) : a.entriesV1 (encodedPage n) = keys.merge prefixes fun x y => decide (x < y) := by
  rw [← hkeys, ← hprefixes]
  rfl

theorem entriesV1_colons (n : Int) : colons.entriesV1 (encodedPage n) = ["1/", ":k", "z"] := by
  have hkeys : (listedObjects (encodedPage 2).toV2 (colons.backend.listWithMeta (some (rawPath (encodedPage 2).toV2.dirPrefix)))).map
      ListedObject.key = [":k", "z"] := by decide
  have hprefixes : listedPrefixes (encodedPage 2).toV2 (colons.backend.listWithMeta (some (rawPath (encodedPage 2).toV2.dirPrefix))) =
      ["1/"] := by decide
  rw [entriesV1_encodedPage hkeys hprefixes, List.cons_merge_cons_neg _ _ _ (by decide), List.merge_right]

theorem entriesV1_adapter (n : Int) : adapter.entriesV1 (encodedPage n) = ["x", "y/", "z"] := by
  have hkeys : (listedObjects (encodedPage 2).toV2 (adapter.backend.listWithMeta (some (rawPath (encodedPage 2).toV2.dirPrefix)))).map
      ListedObject.key = ["x", "z"] := by decide
  have hprefixes : listedPrefixes (encodedPage 2).toV2 (adapter.backend.listWithMeta (some (rawPath (encodedPage 2).toV2.dirPrefix))) =
      ["y/"] := by decide
  rw [entriesV1_encodedPage hkeys hprefixes, List.cons_merge_cons_pos _ _ _ (by decide), List.cons_merge_cons_neg _ _ _ (by decide),
    List.merge_right]

end Sample

open Sample in
/-- The first page ends with a directory and a key before it. -/
theorem pages_of_two_are_received_once : adapter.ListsOnce (encodedPage 2) := by
  refine (markers_are_exact_iff adapter (encodedPage_answered List.mem_cons_self (by decide))).mpr fun k hk => ?_
  rw [entriesV1_adapter] at hk ⊢
  change (k + 1) * 2 < 3 at hk
  obtain rfl : k = 0 := by omega
  intro key pre hkey hpre
  obtain rfl : "x" = key := Option.some.inj (hkey.symm.trans (by decide)).symm
  obtain rfl : "y/" = pre := Option.some.inj (hpre.symm.trans (by decide)).symm
  decide

open Sample in
/-- A page that ends with the directory and the first key has the directory as its marker. -/
theorem an_encoded_key_is_listed_twice : ¬ ∀ (a : Adapter) (req : ListV1Request), req.Answered a.buckets → a.ListsOnce req := by
  intro h
  have hanswered := encodedPage_answered (a := colons) (n := 2) List.mem_cons_self (by decide)
  have hwalk := (colons.listsOnce_iff_walk hanswered).mp (h _ _ hanswered)
  have hlast := (walk_covers_iff (colons.pairwise_entriesV1 _) (by decide) (fun p hp => ListV1Request.nextMarker_mem _ hp) _).mp hwalk 0
  rw [entriesV1_colons] at hlast
  exact absurd (hlast (by decide)) (by decide)

end ObjStr.S3
