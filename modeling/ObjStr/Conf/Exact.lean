/-
  ObjStr.Conf.Exact — which configs the parsers return (`shardedobjstr/src/config.rs`).

  What is accepted is well formed, at every level of the tree, and whatever is well formed is what some text is parsed to: its
  values can be quoted, and its nodes printed with their shards and children below them.
  - `confs_are_exact`: the tree parser returns the well-formed trees, the flat parser the well-formed lists of shards, and
    `load_auto_conf` either, with every flat config in the place of its tree of one node; none returns anything else.
-/

import ObjStr.Conf.Parse

namespace ObjStr.Conf

open ObjStr.Lib ObjStr.Raw

/-! ## Well-formed configs -/

def OneLine (s : Text) : Prop := '\n' ∉ s

def RawShard.WellFormed (s : RawShard) : Prop := OneLine s.path ∧ ∀ c ∈ s.compression, OneLine c

structure S3Shard.OneLine (s : S3Shard) : Prop where
  endpoint : Conf.OneLine s.endpoint
  bucket : Conf.OneLine s.bucket
  region : ∀ v ∈ s.region, Conf.OneLine v
  accessKey : ∀ v ∈ s.accessKey, Conf.OneLine v
  secretKey : ∀ v ∈ s.secretKey, Conf.OneLine v

/-- A shard that has a line of its own. -/
def ShardConf.WellFormed : ShardConf → Prop
  | .raw s => s.WellFormed
  | .fs root _ => OneLine root
  | .s3 s => s.OneLine ∧ s.endpoint ≠ [] ∧ s.bucket ≠ []
  | .mem => True
  | .node _ => False

def ShardConf.nodeName : ShardConf → Option Text
  | .node name => some name
  | _ => none

structure NodeLine.WellFormed (n : NodeLine) : Prop where
  name : Word n.name
  rf : n.rf ≠ 0
  minWrites : ∀ v ∈ n.minWrites, v ≠ 0 ∧ v ≤ n.rf

def TreeNode.line (t : TreeNode) : NodeLine := ⟨t.name, t.replicationFactor, t.minWrites⟩

/-- The shards that are nodes are the children, in this order, and every child is well formed. -/
inductive TreeNode.WellFormed : TreeNode → Prop where
  | intro {t : TreeNode} : t.line.WellFormed → (∀ s ∈ t.shards, s.nodeName = none → s.WellFormed) →
      t.shards.filterMap ShardConf.nodeName = t.children.map TreeNode.name → (∀ c ∈ t.children, c.WellFormed) → t.WellFormed

structure TreeGlobals.WellFormed (g : TreeGlobals) : Prop where
  catalog : ∀ v ∈ g.catalog, Tight v
  readPrefer : ∀ v ∈ g.readPrefer, isReadPrefer v = true
  compression : ∀ v ∈ g.compression, Tight v

structure TreeConf.WellFormed (c : TreeConf) : Prop where
  globals : c.toTreeGlobals.WellFormed
  clusterName : Tight c.clusterName ∨ c.clusterName = c.root.name
  root : c.root.WellFormed

structure ClusterConf.WellFormed (c : ClusterConf) : Prop where
  replicas : c.replicas ≠ 0
  minWrites : ∀ v ∈ c.minWrites, v ≠ 0 ∧ v ≤ c.replicas
  catalog : ∀ v ∈ c.catalog, Word v
  readPrefer : ∀ v ∈ c.readPrefer, isReadPrefer v = true
  compression : ∀ v ∈ c.compression, Word v
  shards : ∀ s ∈ c.shards, s.WellFormed
  nonempty : c.shards ≠ []

/-! ## What is accepted -/

/-- What every round of a loop keeps holds behind it. -/
theorem foldlM_keeps {α β ε : Type} {f : β → α → Except ε β} {P : β → Prop} {l : List α} {b b' : β} (hb : P b)
    (hf : ∀ b, P b → ∀ a ∈ l, ∀ b', f b a = .ok b' → P b') (h : l.foldlM f b = .ok b') : P b' := by
  induction l generalizing b with
  | nil =>
    cases h
    exact hb
  | cons a l ih =>
    rw [List.foldlM_cons] at h
    obtain ⟨b1, hb1, h⟩ := Outline.bind_ok h
    exact ih (hf b hb a List.mem_cons_self b1 hb1) (fun b hb a ha => hf b hb a (List.mem_cons_of_mem _ ha)) h

theorem ite_ok {α ε : Type} {c : Prop} [Decidable c] {x y : Except ε α} {a : α} (h : (if c then x else y) = .ok a) :
    (c ∧ x = .ok a) ∨ (¬ c ∧ y = .ok a) := by
  split at h
  · next hc => exact .inl ⟨hc, h⟩
  · next hc => exact .inr ⟨hc, h⟩

theorem OneLine.stripPrefix {word s rest : Text} (hs : OneLine s) (h : stripPrefix word s = some rest) : OneLine rest := by
  rw [stripPrefix_eq_some h] at hs
  exact fun hm => hs (List.mem_append_right _ hm)

theorem OneLine.stripEither {word word' s rest : Text} (hs : OneLine s) (h : stripEither word word' s = some rest) : OneLine rest := by
  rcases Option.or_eq_some_iff.mp h with h | ⟨-, h⟩
  · exact hs.stripPrefix h
  · exact hs.stripPrefix h

theorem OneLine.getD_stripPrefix {word s : Text} (hs : OneLine s) : OneLine ((Raw.stripPrefix word s).getD s) := by
  cases h : Raw.stripPrefix word s with
  | none => exact hs
  | some rest => exact hs.stripPrefix h

theorem wellFormed_rawSet {s s' : RawShard} {tok : Text} (hs : s.WellFormed) (htok : OneLine tok)
    (h : s.set tok = some (.ok s')) : s'.WellFormed := by
  unfold RawShard.set at h
  split at h
  · cases h; exact hs
  split at h
  · cases h; exact hs
  split at h
  · next val hval =>
    cases h
    exact ⟨hs.1, fun c hc => Option.some.inj hc ▸ htok.stripPrefix hval⟩
  split at h
  · split at h
    · cases h; exact hs
    · cases h
  obtain ⟨val, -, h⟩ := Option.map_eq_some_iff.mp h
  cases h
  exact hs

theorem oneLine_s3Set {s s' : S3Shard} {tok : Text} (hs : s.OneLine) (htok : OneLine tok) (h : s.set tok = some s') :
    s'.OneLine := by
  have hval : ∀ {word val v : Text}, stripPrefix word tok = some val → some val = some v → OneLine v :=
    fun hval hv => Option.some.inj hv ▸ htok.stripPrefix hval
  unfold S3Shard.set at h
  repeat' split at h
  · next hv => cases h; exact { hs with endpoint := hval hv rfl }
  · next hv => cases h; exact { hs with bucket := hval hv rfl }
  · next hv => cases h; exact { hs with region := fun v h => hval hv h }
  · next hv => cases h; exact { hs with accessKey := fun v h => hval hv h }
  · next hv => cases h; exact { hs with secretKey := fun v h => hval hv h }
  · cases h; exact { hs with }
  · cases h

section Accepted

variable {line : Nat} {toks : List Text} {s : ShardConf}

theorem wellFormed_parseRawShard (htoks : ∀ w ∈ toks, OneLine w) (h : parseRawShard line toks = .ok s) : s.WellFormed := by
  cases toks with
  | nil => cases h
  | cons first opts =>
    obtain ⟨hfirst, hopts⟩ := List.forall_mem_cons.mp htoks
    obtain ⟨r, hr, h⟩ := Outline.bind_ok h
    cases h
    refine foldlM_keeps (P := RawShard.WellFormed) ⟨hfirst.getD_stripPrefix, by simp⟩ (fun b hb tok ht b' hb' => ?_) hr
    unfold rawOption at hb'
    split at hb'
    · next hset =>
      cases hb'
      exact wellFormed_rawSet hb (hopts tok ht) hset
    all_goals cases hb'

theorem wellFormed_parseFsShard (htoks : ∀ w ∈ toks, OneLine w) (h : parseFsShard line toks = .ok s) : s.WellFormed := by
  cases toks with
  | nil => cases h
  | cons first opts =>
    obtain ⟨r, hr, h⟩ := Outline.bind_ok h
    cases h
    exact (htoks first List.mem_cons_self).getD_stripPrefix

theorem wellFormed_parseS3Shard (htoks : ∀ w ∈ toks, OneLine w) (h : parseS3Shard line toks = .ok s) : s.WellFormed := by
  obtain ⟨r, hr, h⟩ := Outline.bind_ok h
  split at h
  · cases h
  split at h
  · cases h
  next hendpoint hbucket =>
    cases h
    refine ⟨foldlM_keeps (P := S3Shard.OneLine) ⟨by simp [OneLine], by simp [OneLine], by simp, by simp, by simp⟩
      (fun b hb tok ht b' hb' => ?_) hr, by simpa using hendpoint, by simpa using hbucket⟩
    unfold s3Option at hb'
    split at hb'
    · next hset =>
      cases hb'
      exact oneLine_s3Set hb (htoks tok ht) hset
    · cases hb'

theorem wellFormed_parseShardTokens (htoks : ∀ w ∈ toks, OneLine w) (h : parseShardTokens line toks = .ok s) : s.WellFormed := by
  cases toks with
  | nil => cases h
  | cons kind toks =>
    have hrest := (List.forall_mem_cons.mp htoks).2
    rw [parseShardTokens] at h
    repeat' split at h
    · exact wellFormed_parseRawShard hrest h
    · exact wellFormed_parseFsShard hrest h
    · exact wellFormed_parseS3Shard hrest h
    · cases h; trivial
    · exact wellFormed_parseRawShard htoks h

theorem wellFormed_parseTreeShardLine {l : Text} (hl : OneLine l) (h : parseTreeShardLine l = .ok s) : s.WellFormed := by
  obtain ⟨toks, htoks, h⟩ := Outline.bind_ok h
  have htoks : ∀ w ∈ toks, OneLine w := fun w hw hm =>
    (mem_of_tokenize (P := (· ≠ '\n')) htoks (fun c hc hn => hl (hn ▸ hc)) w hw).2 '\n' hm rfl
  cases toks with
  | nil => cases h
  | cons kind toks =>
    have hrest := (List.forall_mem_cons.mp htoks).2
    dsimp only at h
    repeat' split at h
    · exact wellFormed_parseRawShard hrest h
    · exact wellFormed_parseFsShard hrest h
    · exact wellFormed_parseS3Shard hrest h
    · cases h; trivial
    · exact wellFormed_parseRawShard htoks h
    · cases h

end Accepted

theorem wellFormed_parseTreeNodeLine {l : Text} (hl : OneLine l) {n : NodeLine} (h : parseTreeNodeLine l = .ok n) :
    n.WellFormed := by
  obtain ⟨toks, htoks, h⟩ := Outline.bind_ok h
  cases toks with
  | nil => cases h
  | cons name parts =>
    obtain ⟨n', hn', h⟩ := Outline.bind_ok h
    have hname : Word name := by
      have := mem_of_tokenize (P := (· ≠ '\n')) htoks (fun c hc hn => hl (hn ▸ hc)) name List.mem_cons_self
      exact ⟨this.1, fun hm => this.2 '\n' hm rfl⟩
    have hkeeps : Word n'.name ∧ n'.rf ≠ 0 ∧ ∀ v ∈ n'.minWrites, v ≠ 0 := by
      refine foldlM_keeps (P := fun n : NodeLine => Word n.name ∧ n.rf ≠ 0 ∧ ∀ v ∈ n.minWrites, v ≠ 0)
        ⟨hname, (by decide : (1 : UInt64) ≠ 0), by simp⟩ (fun b hb tok _ b' hb' => ?_) hn'
      unfold NodeLine.set at hb'
      repeat' split at hb'
      · cases hb'
      · cases hb'
      · next hrf => cases hb'; exact ⟨hb.1, hrf, hb.2.2⟩
      · cases hb'
      · cases hb'
      · next hv => cases hb'; exact ⟨hb.1, hb.2.1, fun v h => Option.some.inj h ▸ hv⟩
      · cases hb'; exact hb
    unfold NodeLine.checked at h
    split at h
    · next v hv =>
      split at h
      · cases h
      · next hle =>
        cases h
        refine ⟨hkeeps.1, hkeeps.2.1, fun w hw => ⟨hkeeps.2.2 w hw, ?_⟩⟩
        rw [Option.mem_def, hv] at hw
        exact Option.some.inj hw ▸ UInt64.not_lt.mp hle
    · next hv =>
      cases h
      exact ⟨hkeeps.1, hkeeps.2.1, fun w hw => by rw [Option.mem_def, hv] at hw; cases hw⟩

theorem ShardConf.WellFormed.nodeName {s : ShardConf} (h : s.WellFormed) : s.nodeName = none := by
  cases s with
  | node name => exact h.elim
  | _ => rfl

/-- What stands below a node: shards with a line of their own, and nodes. -/
def ItemWellFormed : ShardConf ⊕ TreeNode → Prop
  | .inl s => s.WellFormed
  | .inr c => c.WellFormed

theorem wellFormed_of {n : NodeLine} {items : List (ShardConf ⊕ TreeNode)} (hn : n.WellFormed) (h : ∀ x ∈ items, ItemWellFormed x) :
    (TreeNode.of n items).WellFormed := by
  refine .intro hn (fun s hs hnode => ?_) ?_ fun c hc => ?_
  · obtain ⟨x, hx, rfl⟩ := List.mem_map.mp hs
    cases x with
    | inl s => exact h _ hx
    | inr c => cases hnode
  · show (items.map _).filterMap _ = (items.filterMap _).map _
    rw [List.filterMap_map, List.map_filterMap]
    refine List.filterMap_congr fun x hx => ?_
    cases x with
    | inl s => exact (h _ hx).nodeName
    | inr c => rfl
  · obtain ⟨x, hx, hxc⟩ := List.mem_filterMap.mp hc
    cases x with
    | inl s => cases hxc
    | inr c' => exact Option.some.inj hxc ▸ h _ hx

theorem wellFormed_reads {b : Nat} {ls : List (Nat × Text)} {items : List (ShardConf ⊕ TreeNode)}
    (h : treeOutline.Reads b ls items) (hls : ∀ l ∈ ls, OneLine l.2) : ∀ x ∈ items, ItemWellFormed x := by
  induction h with
  | nil => exact List.forall_mem_nil _
  | leaf _ _ hs _ ih =>
    obtain ⟨hl, hls⟩ := List.forall_mem_cons.mp hls
    exact List.forall_mem_cons.mpr ⟨wellFormed_parseTreeShardLine hl hs, ih hls⟩
  | node _ _ hh _ _ _ ihs ih =>
    obtain ⟨hl, hls⟩ := List.forall_mem_cons.mp hls
    rw [List.forall_mem_append] at hls
    exact List.forall_mem_cons.mpr ⟨wellFormed_of (wellFormed_parseTreeNodeLine hl hh) (ihs hls.1), ih hls.2⟩

def GlobalsRead (g : TreeGlobals) : Prop := g.WellFormed ∧ (g.clusterName = [] ∨ Tight g.clusterName)

theorem tight_splitKey {l val : Text} (hl : Tight l) (h : (splitKey l).2 = some val) : Tight val := by
  unfold splitKey at h
  dsimp only at h
  split at h
  · cases h
  · next c rest hrest =>
    obtain rfl := Option.some.inj h
    have hsuffix : c :: rest <:+ l := hrest ▸ List.dropWhile_suffix _
    have hc : isWhitespace c = true := by
      have := List.head?_dropWhile_not (!isWhitespace ·) l
      rw [hrest] at this
      simpa using this
    -- the line does not end in white space
    have hne : trim rest ≠ [] := by
      intro hnil
      have hlast := hl.last _ (hsuffix.getLast (List.cons_ne_nil _ _) ▸ List.getLast?_eq_some_getLast hl.ne_nil)
      rcases List.mem_cons.mp (List.getLast_mem (List.cons_ne_nil c rest)) with hmem | hmem
      · rw [hmem, hc] at hlast
        cases hlast
      · rw [isWhitespace_of_trim_nil hnil _ hmem] at hlast
        cases hlast
    refine ⟨hne, head_trim rest, last_trim rest, fun hm => hl.newline ?_⟩
    exact (List.dropWhile_suffix _).subset (hrest ▸ List.mem_cons_of_mem _ (mem_of_mem_trim hm))

theorem globalsRead_set {g g' : TreeGlobals} {l : Text} (hl : Tight l) (hg : GlobalsRead g)
    (h : g.set (splitKey l).1 (splitKey l).2 = .ok (some g')) : GlobalsRead g' := by
  have hval : ∀ v, (splitKey l).2 = some v → Tight v := fun v => tight_splitKey hl
  generalize (splitKey l).2 = val at h hval
  unfold TreeGlobals.set at h
  repeat' split at h
  · cases h
    refine ⟨{ hg.1 with }, ?_⟩
    cases val with
    | none => exact .inl rfl
    | some v => exact .inr (hval v rfl)
  · cases h; exact ⟨{ hg.1 with catalog := hval }, hg.2⟩
  · cases h; exact hg
  · next hv => cases h; exact ⟨{ hg.1 with readPrefer := fun w hw => Option.some.inj hw ▸ hv }, hg.2⟩
  · cases h
  · cases h; exact hg
  · cases h; exact ⟨{ hg.1 with compression := hval }, hg.2⟩
  · cases h; exact ⟨{ hg.1 with }, hg.2⟩
  · cases h; exact hg
  · cases h; exact ⟨{ hg.1 with }, hg.2⟩
  · cases h
  · cases h; exact ⟨{ hg.1 with }, hg.2⟩
  · cases h; exact hg
  · cases h

theorem wellFormed_parseTreeConf {text : Text} {c : TreeConf} (h : parseTreeConf text = .ok c) : c.WellFormed := by
  obtain ⟨⟨g, remaining⟩, htop, h⟩ := Outline.bind_ok h
  obtain ⟨hg, hrem⟩ : GlobalsRead g ∧ ∀ l ∈ remaining, OneLine l.2 := by
    refine foldlM_keeps (P := fun acc : TreeGlobals × List (Nat × Text) => GlobalsRead acc.1 ∧ ∀ l ∈ acc.2, OneLine l.2)
      ⟨⟨⟨by simp, by simp, by simp⟩, .inl rfl⟩, by simp⟩ (fun acc hacc l hl acc' h => ?_) htop
    have hneat := neat_of_mem hl
    have hkeep : ∀ x ∈ acc.2 ++ [l], OneLine x.2 :=
      List.forall_mem_append.mpr ⟨hacc.2, fun x hx => List.mem_singleton.mp hx ▸ hneat.newline⟩
    unfold topLine at h
    repeat' split at h
    · cases h
    · next hset => cases h; exact ⟨globalsRead_set hneat.toTight hacc.1 hset, hacc.2⟩
    · cases h; exact ⟨hacc.1, hkeep⟩
    · cases h; exact ⟨hacc.1, hkeep⟩
  dsimp only at h
  split at h
  · cases h
  obtain ⟨⟨root, rest⟩, hroot, h⟩ := Outline.bind_ok h
  cases h
  obtain ⟨i, l, n, sub, items, rfl, hn, hsub, -, rfl⟩ := Outline.block_iff.mp hroot
  obtain ⟨hl, hrem⟩ := List.forall_mem_cons.mp hrem
  refine ⟨{ hg.1 with }, ?_, wellFormed_of (wellFormed_parseTreeNodeLine hl hn) (wellFormed_reads hsub fun x hx =>
    hrem x (List.mem_append_left _ hx))⟩
  rcases hg.2 with hname | hname
  · exact .inr (by simp [hname])
  · exact .inl (by simpa [hname.ne_nil] using hname)

theorem mem_contentLines_of_numbered {text : Text} {l : Nat × Nat × Text} (h : l ∈ numberedLines text) :
    l.2 ∈ contentLines text := by
  obtain ⟨raw, hraw, hl⟩ := List.mem_filterMap.mp h
  obtain ⟨l', hl', rfl⟩ := Option.map_eq_some_iff.mp hl
  exact List.mem_filterMap.mpr ⟨raw.1, (List.mem_zipIdx' hraw).2 ▸ List.getElem_mem _, hl'⟩

theorem parseCount_ne_zero {val : Text} {key : String} {line : Nat} {n : UInt64} (h : parseCount val key line = .ok n) : n ≠ 0 := by
  unfold parseCount at h
  repeat' split at h
  · cases h
  · cases h
  · next hn => cases h; exact hn

structure FlatRead (c : ClusterConf) : Prop where
  replicas : c.replicas ≠ 0
  minWrites : ∀ v ∈ c.minWrites, v ≠ 0
  catalog : ∀ v ∈ c.catalog, Word v
  readPrefer : ∀ v ∈ c.readPrefer, isReadPrefer v = true
  compression : ∀ v ∈ c.compression, Word v
  shards : ∀ s ∈ c.shards, s.WellFormed

theorem flatRead_set {c c' : ClusterConf} {line : Nat} {trimmed key : Text} {args : List Text} (hc : FlatRead c)
    (hargs : ∀ w ∈ args, Word w) (h : c.set line trimmed key args = .ok c') : FlatRead c' := by
  have hword : ∀ {key val}, requireValue args key line = .ok val → Word val := by
    intro key val h
    unfold requireValue at h
    split at h
    · next v hv => cases h; exact hargs _ (List.mem_of_mem_head? hv)
    · cases h
  unfold ClusterConf.set at h
  rcases ite_ok h with ⟨-, h⟩ | ⟨-, h⟩
  · obtain ⟨val, -, h⟩ := Outline.bind_ok h
    obtain ⟨n, hn, h⟩ := Outline.bind_ok h
    cases h
    exact { hc with replicas := parseCount_ne_zero hn }
  rcases ite_ok h with ⟨-, h⟩ | ⟨-, h⟩
  · obtain ⟨val, -, h⟩ := Outline.bind_ok h
    obtain ⟨n, hn, h⟩ := Outline.bind_ok h
    cases h
    exact { hc with minWrites := fun v hv => Option.some.inj hv ▸ parseCount_ne_zero hn }
  rcases ite_ok h with ⟨-, h⟩ | ⟨-, h⟩
  · obtain ⟨val, hval, h⟩ := Outline.bind_ok h
    cases h
    exact { hc with catalog := fun v hv => Option.some.inj hv ▸ hword hval }
  rcases ite_ok h with ⟨-, h⟩ | ⟨-, h⟩
  · obtain ⟨val, -, h⟩ := Outline.bind_ok h
    rcases ite_ok h with ⟨hp, h⟩ | ⟨-, h⟩
    · cases h; exact { hc with readPrefer := fun v hv => Option.some.inj hv ▸ hp }
    · cases h
  rcases ite_ok h with ⟨-, h⟩ | ⟨-, h⟩
  · cases h; exact { hc with }
  rcases ite_ok h with ⟨-, h⟩ | ⟨-, h⟩
  · obtain ⟨val, hval, h⟩ := Outline.bind_ok h
    cases h
    exact { hc with compression := fun v hv => Option.some.inj hv ▸ hword hval }
  rcases ite_ok h with ⟨-, h⟩ | ⟨-, h⟩
  · obtain ⟨val, -, h⟩ := Outline.bind_ok h
    cases hn : parseU64 val with
    | some n => rw [hn] at h; cases h; exact { hc with }
    | none => rw [hn] at h; cases h
  rcases ite_ok h with ⟨-, h⟩ | ⟨-, h⟩
  · cases h; exact { hc with }
  rcases ite_ok h with ⟨-, h⟩ | ⟨-, h⟩
  · cases h; exact { hc with }
  rcases ite_ok h with ⟨-, h⟩ | ⟨-, h⟩
  · obtain ⟨s, hs, h⟩ := Outline.bind_ok h
    cases h
    have hs := wellFormed_parseShardTokens (fun w hw => (hargs w hw).2) hs
    exact { hc with shards := List.forall_mem_append.mpr ⟨hc.shards, fun x hx => List.mem_singleton.mp hx ▸ hs⟩ }
  rcases ite_ok h with ⟨-, h⟩ | ⟨-, h⟩
  · cases h; exact hc
  · cases h

theorem wellFormed_parseClusterConf {text : Text} {c : ClusterConf} (h : parseClusterConf text = .ok c) : c.WellFormed := by
  obtain ⟨c', hc', h⟩ := Outline.bind_ok h
  have hread : FlatRead c' := by
    refine foldlM_keeps (P := FlatRead) ⟨(by decide : (1 : UInt64) ≠ 0), by simp, by simp, by simp, by simp, by simp⟩
      (fun b hb l hl b' h => ?_) hc'
    have hneat := neat_of_mem (mem_contentLines_of_numbered hl)
    unfold flatLine at h
    repeat' split at h
    · cases h; exact hb
    · cases h
    · cases h; exact hb
    · next key args htoks =>
      refine flatRead_set hb (fun w hw => ?_) h
      have := mem_of_tokenize (P := (· ≠ '\n')) htoks (fun d hd hn => hneat.newline (hn ▸ hd)) w (List.mem_cons_of_mem _ hw)
      exact ⟨this.1, fun hm => this.2 _ hm rfl⟩
  unfold ClusterConf.checked at h
  split at h
  · cases h
  next hne =>
    have hne : c'.shards ≠ [] := by simpa using hne
    split at h
    · next v hv =>
      split at h
      · cases h
      · next hle =>
        cases h
        refine { hread with nonempty := hne, minWrites := fun w hw => ⟨hread.minWrites w hw, ?_⟩ }
        rw [Option.mem_def, hv] at hw
        exact Option.some.inj hw ▸ UInt64.not_lt.mp hle
    · next hv =>
      cases h
      exact { hread with nonempty := hne, minWrites := fun w hw => by rw [Option.mem_def, hv] at hw; cases hw }

/-! ## What is printed is read -/

def RawShard.words (s : RawShard) : List Text :=
  ("path=".toList ++ s.path) :: ((if s.readOnly then ["readonly".toList] else []) ++
    s.compression.toList.map ("compression=".toList ++ ·) ++
    s.directIo.toList.map (fun b => if b then "direct_io=true".toList else "direct_io=false".toList) ++
    s.sizeMb.toList.map ("size_mb=".toList ++ decimal ·))

def S3Shard.words (s : S3Shard) : List Text :=
  ["endpoint=".toList ++ s.endpoint, "bucket=".toList ++ s.bucket] ++ s.region.toList.map ("region=".toList ++ ·) ++
    s.accessKey.toList.map ("access_key=".toList ++ ·) ++ s.secretKey.toList.map ("secret_key=".toList ++ ·) ++
    (if s.pathStyle then ["path_style".toList] else [])

def ShardConf.words : ShardConf → List Text
  | .raw s => "raw".toList :: s.words
  | .fs root readOnly => "fs".toList :: ("root=".toList ++ root) :: (if readOnly then ["readonly".toList] else [])
  | .s3 s => "s3".toList :: s.words
  | .mem => ["mem".toList]
  | .node _ => []

namespace RawShard

variable (s : RawShard)

theorem set_readonly : s.set "readonly".toList = some (.ok { s with readOnly := true }) := rfl

theorem set_compression (v : Text) : s.set ("compression=".toList ++ v) = some (.ok { s with compression := some v }) := by
  simp [RawShard.set, isReadOnlyFlag, stripPrefix]

theorem set_directIo (b : Bool) :
    s.set (if b then "direct_io=true".toList else "direct_io=false".toList) = some (.ok { s with directIo := some b }) := by
  cases b <;> rfl

theorem set_sizeMb (n : UInt64) : s.set ("size_mb=".toList ++ decimal n) = some (.ok { s with sizeMb := some n }) := by
  simp [RawShard.set, isReadOnlyFlag, stripPrefix, stripEither, parseU64_decimal]

end RawShard

/-- One loop after another. -/
theorem foldlM_append_ok {α β ε : Type} {f : β → α → Except ε β} {l l' : List α} {b b1 b2 : β} (h : l.foldlM f b = .ok b1)
    (h' : l'.foldlM f b1 = .ok b2) : (l ++ l').foldlM f b = .ok b2 := by
  rw [List.foldlM_append, h]
  exact h'

/-- What is there only if there is a value. -/
theorem foldlM_toList {α β γ ε : Type} {f : β → α → Except ε β} (v : Option γ) (g : γ → α) {b : β} (b' : Option γ → β)
    (hnone : b' none = b) (hsome : ∀ x ∈ v, f b (g x) = .ok (b' (some x))) : (v.toList.map g).foldlM f b = .ok (b' v) := by
  cases v with
  | none => exact congrArg Except.ok hnone.symm
  | some x =>
    show (f b (g x) >>= fun b => pure b) = _
    rw [hsome x rfl]
    rfl

theorem foldlM_flag {α β ε : Type} {f : β → α → Except ε β} (flag : Bool) (a : α) {b : β} (b' : Bool → β)
    (hfalse : b' false = b) (htrue : f b a = .ok (b' true)) : (if flag then [a] else []).foldlM f b = .ok (b' flag) := by
  cases flag with
  | false => exact congrArg Except.ok hfalse.symm
  | true =>
    show (f b a >>= fun b => pure b) = _
    rw [htrue]
    rfl

theorem parseRawShard_words (line : Nat) (s : RawShard) : parseRawShard line s.words = .ok (.raw s) := by
  obtain ⟨path, readOnly, compression, directIo, sizeMb⟩ := s
  have hset : ∀ {s s' : RawShard} {tok}, s.set tok = some (.ok s') → rawOption line s tok = .ok s' := by
    intro s s' tok h
    rw [rawOption, h]
  have h1 := foldlM_flag readOnly _ (fun v => ({ path, readOnly := v } : RawShard)) rfl (hset (RawShard.set_readonly { path }))
  have h2 := foldlM_toList compression _ (fun v => ({ path, readOnly, compression := v } : RawShard)) rfl
    fun v _ => hset (RawShard.set_compression _ v)
  have h3 := foldlM_toList directIo _ (fun v => ({ path, readOnly, compression, directIo := v } : RawShard)) rfl
    fun v _ => hset (RawShard.set_directIo _ v)
  have h4 := foldlM_toList sizeMb _ (fun v => ({ path, readOnly, compression, directIo, sizeMb := v } : RawShard)) rfl
    fun v _ => hset (RawShard.set_sizeMb _ v)
  rw [RawShard.words, parseRawShard, stripPrefix_append, Option.getD_some]
  rw [foldlM_append_ok (foldlM_append_ok (foldlM_append_ok h1 h2) h3) h4]
  rfl

theorem parseFsShard_words (line : Nat) (root : Text) (readOnly : Bool) :
    parseFsShard line (("root=".toList ++ root) :: (if readOnly then ["readonly".toList] else [])) = .ok (.fs root readOnly) := by
  rw [parseFsShard, stripPrefix_append]
  cases readOnly <;> rfl

namespace S3Shard

variable (s : S3Shard) (v : Text)

theorem set_endpoint : s.set ("endpoint=".toList ++ v) = some { s with endpoint := v } := by simp [S3Shard.set, stripPrefix]

theorem set_bucket : s.set ("bucket=".toList ++ v) = some { s with bucket := v } := by simp [S3Shard.set, stripPrefix]

theorem set_region : s.set ("region=".toList ++ v) = some { s with region := some v } := by simp [S3Shard.set, stripPrefix]

theorem set_accessKey : s.set ("access_key=".toList ++ v) = some { s with accessKey := some v } := by
  simp [S3Shard.set, stripPrefix]

theorem set_secretKey : s.set ("secret_key=".toList ++ v) = some { s with secretKey := some v } := by
  simp [S3Shard.set, stripPrefix]

theorem set_pathStyle : s.set "path_style".toList = some { s with pathStyle := true } := rfl

end S3Shard

theorem parseS3Shard_words (line : Nat) {s : S3Shard} (hendpoint : s.endpoint ≠ []) (hbucket : s.bucket ≠ []) :
    parseS3Shard line s.words = .ok (.s3 s) := by
  obtain ⟨endpoint, bucket, region, accessKey, secretKey, pathStyle⟩ := s
  have hset : ∀ {s s' : S3Shard} {tok}, s.set tok = some s' → s3Option line s tok = .ok s' := by
    intro s s' tok h
    rw [s3Option, h]
  have h1 : ["endpoint=".toList ++ endpoint, "bucket=".toList ++ bucket].foldlM (s3Option line) {} =
      .ok { endpoint, bucket } := by
    rw [List.foldlM_cons, hset (S3Shard.set_endpoint {} endpoint)]
    change List.foldlM _ _ _ = _
    rw [List.foldlM_cons, hset (S3Shard.set_bucket _ bucket)]
    rfl
  have h2 := foldlM_toList region _ (fun v => ({ endpoint, bucket, region := v } : S3Shard)) rfl
    fun v _ => hset (S3Shard.set_region _ v)
  have h3 := foldlM_toList accessKey _ (fun v => ({ endpoint, bucket, region, accessKey := v } : S3Shard)) rfl
    fun v _ => hset (S3Shard.set_accessKey _ v)
  have h4 := foldlM_toList secretKey _ (fun v => ({ endpoint, bucket, region, accessKey, secretKey := v } : S3Shard)) rfl
    fun v _ => hset (S3Shard.set_secretKey _ v)
  have h5 := foldlM_flag pathStyle _
    (fun v => ({ endpoint, bucket, region, accessKey, secretKey, pathStyle := v } : S3Shard)) rfl
    (hset (S3Shard.set_pathStyle { endpoint, bucket, region, accessKey, secretKey }))
  have hendpoint : endpoint.isEmpty = false := by simpa using hendpoint
  have hbucket : bucket.isEmpty = false := by simpa using hbucket
  rw [S3Shard.words, parseS3Shard]
  rw [foldlM_append_ok (foldlM_append_ok (foldlM_append_ok (foldlM_append_ok h1 h2) h3) h4) h5]
  change (if endpoint.isEmpty then _ else if bucket.isEmpty then _ else _) = _
  rw [hendpoint, hbucket]
  rfl

/-! ### Shards and nodes -/

theorem word_append {word s : Text} (hne : word ≠ []) (hword : '\n' ∉ word) (hs : OneLine s) : Word (word ++ s) :=
  ⟨by simp [hne], fun hm => (List.mem_append.mp hm).elim hword hs⟩

theorem oneLine_decimal (n : UInt64) : OneLine (decimal n) := (neat_decimal n).newline

theorem forall_mem_flag {P : Text → Prop} {flag : Bool} {w : Text} (h : P w) : ∀ x ∈ (if flag then [w] else []), P x := by
  cases flag with
  | false => exact List.forall_mem_nil _
  | true => exact fun x hx => List.mem_singleton.mp hx ▸ h

theorem word_rawWords {s : RawShard} (h : s.WellFormed) : ∀ w ∈ s.words, Word w := by
  refine List.forall_mem_cons.mpr ⟨word_append (by decide) (by decide) h.1, ?_⟩
  simp only [List.forall_mem_append, List.forall_mem_map, Option.mem_toList]
  exact ⟨⟨⟨forall_mem_flag (by constructor <;> decide), fun c hc => word_append (by decide) (by decide) (h.2 c hc)⟩,
    fun b _ => by cases b <;> constructor <;> decide⟩, fun n _ => word_append (by decide) (by decide) (oneLine_decimal n)⟩

theorem word_s3Words {s : S3Shard} (h : s.OneLine) : ∀ w ∈ s.words, Word w := by
  simp only [S3Shard.words, List.forall_mem_append, List.forall_mem_map, Option.mem_toList, List.forall_mem_cons]
  exact ⟨⟨⟨⟨⟨word_append (by decide) (by decide) h.endpoint, word_append (by decide) (by decide) h.bucket, List.forall_mem_nil _⟩,
    fun v hv => word_append (by decide) (by decide) (h.region v hv)⟩,
    fun v hv => word_append (by decide) (by decide) (h.accessKey v hv)⟩,
    fun v hv => word_append (by decide) (by decide) (h.secretKey v hv)⟩, forall_mem_flag (by constructor <;> decide)⟩

theorem word_shardWords {s : ShardConf} (h : s.WellFormed) : ∀ w ∈ s.words, Word w := by
  cases s with
  | raw s => exact List.forall_mem_cons.mpr ⟨by constructor <;> decide, word_rawWords h⟩
  | fs root readOnly =>
    exact List.forall_mem_cons.mpr ⟨by constructor <;> decide, List.forall_mem_cons.mpr
      ⟨word_append (by decide) (by decide) h, forall_mem_flag (by constructor <;> decide)⟩⟩
  | s3 s => exact List.forall_mem_cons.mpr ⟨by constructor <;> decide, word_s3Words h.1⟩
  | mem => exact List.forall_mem_cons.mpr ⟨by constructor <;> decide, List.forall_mem_nil _⟩
  | node name => exact h.elim

theorem shardWords_ne_nil {s : ShardConf} (h : s.WellFormed) : s.words ≠ [] := by
  cases s with
  | node name => exact h.elim
  | _ => exact List.cons_ne_nil _ _

theorem parseShardTokens_words (line : Nat) {s : ShardConf} (h : s.WellFormed) : parseShardTokens line s.words = .ok s := by
  cases s with
  | raw s => exact parseRawShard_words line s
  | fs root readOnly => exact parseFsShard_words line root readOnly
  | s3 s => exact parseS3Shard_words line h.2.1 h.2.2
  | mem => rfl
  | node name => exact h.elim

theorem parseTreeShardLine_quoted {s : ShardConf} (h : s.WellFormed) : parseTreeShardLine (quoted s.words) = .ok s := by
  rw [parseTreeShardLine, tokenize_quoted fun w hw => (word_shardWords h w hw).1]
  cases s with
  | raw s => exact parseRawShard_words 0 s
  | fs root readOnly => exact parseFsShard_words 0 root readOnly
  | s3 s => exact parseS3Shard_words 0 h.2.1 h.2.2
  | mem => rfl
  | node name => exact h.elim

/-- A quoted line defines no node. -/
theorem isTreeNodeLine_quoted {words : List Text} (hne : words ≠ []) (h : ∀ w ∈ words, w ≠ []) :
    isTreeNodeLine (quoted words) = false := by
  have : contains "rf=".toList (quoted words) = false :=
    (enclosed_quoted hne h).sparse.not_contains (a := 'r') (b := 'f') (by decide) (by decide) ['=']
  rw [isTreeNodeLine, this, Bool.and_false]

def NodeLine.parts (n : NodeLine) : List Text :=
  ("rf=".toList ++ decimal n.rf) :: n.minWrites.toList.map ("min_writes=".toList ++ decimal ·)

def NodeLine.text (n : NodeLine) : Text := line (quote n.name :: n.parts)

namespace NodeLine

variable {n : NodeLine}

theorem set_rf (n : NodeLine) {rf : UInt64} (h : rf ≠ 0) : n.set ("rf=".toList ++ decimal rf) = .ok { n with rf } := by
  simp [NodeLine.set, stripPrefix, parseU64_decimal, h]

theorem set_minWrites (n : NodeLine) {v : UInt64} (h : v ≠ 0) :
    n.set ("min_writes=".toList ++ decimal v) = .ok { n with minWrites := some v } := by
  simp [NodeLine.set, stripPrefix, parseU64_decimal, h]

theorem spells_decimal {word : Text} (h : word.all isPlain = true) (v : UInt64) :
    Spells (word ++ decimal v) (word ++ decimal v) := by
  refine spells_plain ?_
  rw [List.all_append, h, isPlain_decimal]
  rfl

theorem tokenize_text (h : n.WellFormed) : tokenize n.text = .ok (n.name :: n.parts) := by
  refine tokenize_line (.cons (spells_quote n.name) (.cons (spells_decimal (by decide) _) ?_)) ?_
  · exact List.forall₂_same.mpr fun w hw => by
      obtain ⟨v, -, rfl⟩ := List.mem_map.mp hw
      exact spells_decimal (by decide) v
  · refine List.forall_mem_cons.mpr ⟨h.name.1, List.forall_mem_cons.mpr ⟨by simp, ?_⟩⟩
    exact List.forall_mem_map.mpr fun v _ => by simp

theorem parse_text (h : n.WellFormed) : parseTreeNodeLine n.text = .ok n := by
  obtain ⟨name, rf, minWrites⟩ := n
  rw [parseTreeNodeLine, tokenize_text h]
  have hset : (NodeLine.parts ⟨name, rf, minWrites⟩).foldlM NodeLine.set { name } = .ok ⟨name, rf, minWrites⟩ := by
    rw [parts, List.foldlM_cons, set_rf _ h.rf]
    cases minWrites with
    | none => rfl
    | some v =>
      change (["min_writes=".toList ++ decimal v].foldlM NodeLine.set _ : Except String NodeLine) = _
      rw [List.foldlM_cons, set_minWrites _ (h.minWrites v rfl).1]
      rfl
  change ((NodeLine.parts _).foldlM NodeLine.set { name } >>= NodeLine.checked : Except String NodeLine) = _
  rw [hset]
  change NodeLine.checked _ = _
  unfold NodeLine.checked
  cases minWrites with
  | none => rfl
  | some v => exact if_neg (UInt64.not_lt.mpr (h.minWrites v rfl).2)

theorem neat_text (h : n.WellFormed) : Neat n.text := by
  have hneat : ∀ {word : Text}, Neat word → ∀ v, Neat (word ++ decimal v) := by
    intro word hw v
    have := hw.append (neat_decimal v).toTight [] (by simp)
    rwa [List.append_nil] at this
  have hrf : Neat "rf=".toList := ⟨tight_of_all (by decide) (by decide), by decide⟩
  have hmw : Neat "min_writes=".toList := ⟨tight_of_all (by decide) (by decide), by decide⟩
  refine neat_line (List.cons_ne_nil _ _) (List.forall_mem_cons.mpr ⟨neat_quote h.name, List.forall_mem_cons.mpr
    ⟨hneat hrf _, List.forall_mem_map.mpr fun v _ => hneat hmw v⟩⟩)

/-- The line begins with a quote. -/
theorem head_text (h : n.WellFormed) : ∃ q rest, isQuote q = true ∧ n.text = q :: rest := by
  obtain ⟨q, hq, hquote⟩ := (enclosed_quote h.name.1).head
  obtain ⟨rest, hrest⟩ : ∃ rest, quote n.name = q :: rest := ⟨_, List.eq_cons_of_mem_head? hq⟩
  refine ⟨q, rest ++ ' ' :: line n.parts, hquote, ?_⟩
  show quote n.name ++ ' ' :: line n.parts = _
  rw [hrest]
  rfl

theorem isTreeNodeLine_text (h : n.WellFormed) : isTreeNodeLine n.text = true := by
  obtain ⟨q, rest, hq, htext⟩ := head_text h
  have hfirst : ∃ w, firstWord n.text = q :: w := by
    have hws : isWhitespace q = false := by
      rcases Bool.or_eq_true_iff.mp hq with hq | hq <;> exact of_decide_eq_true hq ▸ by decide
    exact ⟨rest.takeWhile (!isWhitespace ·), by rw [firstWord, htext, List.takeWhile_cons_of_pos (by simp [hws])]⟩
  have hcontains : contains "rf=".toList n.text = true := by
    have : ∃ post, n.text = (quote n.name ++ [' ']) ++ "rf=".toList ++ post := by
      cases hmw : n.minWrites with
      | none => exact ⟨decimal n.rf, by simp [text, parts, line, hmw]⟩
      | some v => exact ⟨decimal n.rf ++ ' ' :: ("min_writes=".toList ++ decimal v), by simp [text, parts, line, hmw]⟩
    obtain ⟨post, hpost⟩ := this
    rw [hpost]
    exact contains_append _ _ _
  obtain ⟨w, hw⟩ := hfirst
  rw [isTreeNodeLine, hcontains, hw, Bool.and_true]
  rcases Bool.or_eq_true_iff.mp hq with hq | hq <;> obtain rfl := of_decide_eq_true hq <;> rfl

end NodeLine

/-! ### Trees -/

/-- What stands below a node, from its shards and its children. -/
theorem exists_items {shards : List ShardConf} {children : List TreeNode}
    (h : shards.filterMap ShardConf.nodeName = children.map TreeNode.name) :
    ∃ items : List (ShardConf ⊕ TreeNode),
      items.map asShard = shards ∧ items.filterMap Sum.getRight? = children ∧ ∀ s, .inl s ∈ items → s ∈ shards ∧ s.nodeName = none := by
  induction shards generalizing children with
  | nil =>
    obtain rfl := List.map_eq_nil_iff.mp h.symm
    exact ⟨[], rfl, rfl, fun s hs => by cases hs⟩
  | cons s shards ih =>
    cases hs : s.nodeName with
    | none =>
      rw [List.filterMap_cons_none hs] at h
      obtain ⟨items, hshards, hchildren, hmem⟩ := ih h
      refine ⟨.inl s :: items, congrArg (s :: ·) hshards, hchildren, fun x hx => ?_⟩
      rcases List.mem_cons.mp hx with hx | hx
      · obtain rfl := Sum.inl.inj hx
        exact ⟨List.mem_cons_self, hs⟩
      · exact ⟨List.mem_cons_of_mem _ (hmem x hx).1, (hmem x hx).2⟩
    | some name =>
      obtain rfl : s = .node name := by
        cases s with
        | node name' => exact congrArg _ (Option.some.inj hs)
        | _ => cases hs
      rw [List.filterMap_cons_some hs] at h
      obtain ⟨c, children, rfl, rfl, hrest⟩ := List.map_eq_cons_iff.mp h.symm
      obtain ⟨items, hshards, hchildren, hmem⟩ := ih hrest.symm
      refine ⟨.inr c :: items, congrArg (ShardConf.node c.name :: ·) hshards, congrArg (c :: ·) hchildren, fun x hx => ?_⟩
      rcases List.mem_cons.mp hx with hx | hx
      · cases hx
      · exact ⟨List.mem_cons_of_mem _ (hmem x hx).1, (hmem x hx).2⟩

/-- Lines that are read to the node, the first of them indented this much. -/
def Printable (t : TreeNode) : Prop := ∀ d, ∃ ls items, (∀ x ∈ ls, Neat x.2) ∧ treeOutline.Reads d ls items ∧ TreeNode.of t.line items = t

theorem exists_lines {d : Nat} {items : List (ShardConf ⊕ TreeNode)} (hshard : ∀ s, .inl s ∈ items → s.WellFormed)
    (hchild : ∀ c, .inr c ∈ items → c.line.WellFormed ∧ Printable c) :
    ∃ ls, (∀ x ∈ ls, Neat x.2) ∧ Outline.Ends (d + 2) ls ∧ treeOutline.Reads d ls items := by
  induction items with
  | nil => exact ⟨[], List.forall_mem_nil _, (fun _ hx => by cases hx), .nil⟩
  | cons x items ih =>
    obtain ⟨ls, hneat, hends, hreads⟩ := ih (fun s hs => hshard s (List.mem_cons_of_mem _ hs)) fun c hc =>
      hchild c (List.mem_cons_of_mem _ hc)
    have hd : d < d + 2 := by omega
    cases x with
    | inl s =>
      have hs := hshard s List.mem_cons_self
      have hne : ∀ w ∈ s.words, w ≠ [] := fun w hw => (word_shardWords hs w hw).1
      exact ⟨(d + 2, quoted s.words) :: ls,
        List.forall_mem_cons.mpr ⟨neat_quoted (shardWords_ne_nil hs) (word_shardWords hs), hneat⟩,
        fun y hy => by cases hy; exact Nat.le_refl _,
        .leaf hd (isTreeNodeLine_quoted (shardWords_ne_nil hs) hne) (parseTreeShardLine_quoted hs) hreads⟩
    | inr c =>
      obtain ⟨hline, hprint⟩ := hchild c List.mem_cons_self
      obtain ⟨sub, ws, hsub, hws, hc⟩ := hprint (d + 2)
      refine ⟨(d + 2, c.line.text) :: (sub ++ ls),
        List.forall_mem_cons.mpr ⟨NodeLine.neat_text hline, List.forall_mem_append.mpr ⟨hsub, hneat⟩⟩,
        fun y hy => by cases hy; exact Nat.le_refl _, ?_⟩
      have := Outline.Reads.node (g := treeOutline) hd (NodeLine.isTreeNodeLine_text hline) (NodeLine.parse_text hline) hws hends
        hreads
      rwa [show treeOutline.build c.line ws = c from hc] at this

theorem printable {t : TreeNode} (h : t.WellFormed) : Printable t := by
  induction h with
  | @intro t hline hshards hnodes hchildren ih =>
    intro d
    obtain ⟨items, hitems, hright, hmem⟩ := exists_items hnodes
    have hchild : ∀ c, .inr c ∈ items → c ∈ t.children := fun c hc => hright ▸ List.mem_filterMap.mpr ⟨_, hc, rfl⟩
    have hline' : ∀ c ∈ t.children, c.line.WellFormed := fun c hc => by
      cases hchildren c hc with
      | intro h _ _ _ => exact h
    obtain ⟨ls, hneat, -, hreads⟩ := exists_lines (d := d) (fun s hs => hshards s (hmem s hs).1 (hmem s hs).2)
      fun c hc => ⟨hline' c (hchild c hc), ih c (hchild c hc)⟩
    refine ⟨ls, items, hneat, hreads, ?_⟩
    show (⟨t.name, t.replicationFactor, t.minWrites, items.map asShard, items.filterMap Sum.getRight?⟩ : TreeNode) = t
    rw [hitems, hright]
    cases t
    rfl

/-! ### Tree files -/

theorem splitKey_append {key val : Text} (hkey : ∀ c ∈ key, isWhitespace c = false) (hval : Tight val) :
    splitKey (key ++ ' ' :: val) = (key, some val) := by
  have hall : ∀ c ∈ key, (!isWhitespace c) = true := fun c hc => by rw [hkey c hc]; rfl
  have hblank : isWhitespace ' ' = true := by decide
  rw [splitKey, firstWord, List.takeWhile_append_of_pos hall, List.dropWhile_append_of_pos hall]
  simp [hblank, trim_eq_self hval.head hval.last]

theorem splitKey_key {key : Text} (hkey : ∀ c ∈ key, isWhitespace c = false) : splitKey key = (key, none) := by
  have hall : ∀ c ∈ key, (!isWhitespace c) = true := fun c hc => by rw [hkey c hc]; rfl
  rw [splitKey, firstWord, List.takeWhile_eq_self_iff.mpr hall, List.dropWhile_eq_nil_iff.mpr hall]

/-- A directive, on a line of its own. -/
theorem topLine_value {g g' : TreeGlobals} {key val : Text} (hkey : ∀ c ∈ key, isWhitespace c = false) (hval : Tight val)
    (h : g.set key (some val) = .ok (some g')) : topLine (g, []) (0, key ++ ' ' :: val) = .ok (g', []) := by
  simp only [topLine, if_true, splitKey_append hkey hval, h]

theorem topLine_key {g g' : TreeGlobals} {key : Text} (hkey : ∀ c ∈ key, isWhitespace c = false)
    (h : g.set key none = .ok (some g')) : topLine (g, []) (0, key) = .ok (g', []) := by
  simp only [topLine, if_true, splitKey_key hkey, h]

def TreeGlobals.lines (g : TreeGlobals) : List Text :=
  (if g.clusterName.isEmpty then none else some g.clusterName).toList.map (fun v => "cluster".toList ++ ' ' :: v) ++
    g.catalog.toList.map (fun v => "catalog".toList ++ ' ' :: v) ++
    g.readPrefer.toList.map (fun v => "read_prefer".toList ++ ' ' :: v) ++
    g.compression.toList.map (fun v => "compression".toList ++ ' ' :: v) ++
    (if g.directIo then ["direct_io".toList] else []) ++
    g.sizeMb.toList.map (fun n => "size_mb".toList ++ ' ' :: decimal n) ++
    (if g.readOnly then ["read_only".toList] else [])

theorem tight_readPrefer {v : Text} (h : isReadPrefer v = true) : Tight v := by
  rcases Bool.or_eq_true_iff.mp h with h | h <;> obtain rfl := of_decide_eq_true h <;>
    exact tight_of_all (by decide) (by decide)

theorem TreeGlobals.set_sizeMb (g : TreeGlobals) {v : Text} {n : UInt64} (h : parseU64 v = some n) :
    g.set "size_mb".toList (some v) = .ok (some { g with sizeMb := some n }) := by
  unfold TreeGlobals.set
  simp only [h]
  rfl

theorem foldlM_lines {g : TreeGlobals} (hg : g.WellFormed) (hname : g.clusterName = [] ∨ Tight g.clusterName) :
    (g.lines.map fun l => (0, l)).foldlM topLine ({}, []) = .ok (g, []) := by
  obtain ⟨clusterName, catalog, readPrefer, compression, directIo, sizeMb, readOnly⟩ := g
  replace hname : clusterName = [] ∨ Tight clusterName := hname
  rw [List.foldlM_map]
  have hkey : ∀ {key val : Text} {g g' : TreeGlobals}, key.all (!isWhitespace ·) = true → Tight val →
      g.set key (some val) = .ok (some g') → topLine (g, []) (0, key ++ ' ' :: val) = .ok (g', []) := by
    intro key val g g' hkey hval h
    exact topLine_value (fun c hc => by simpa using List.all_eq_true.mp hkey c hc) hval h
  have hflag : ∀ {key : Text} {g g' : TreeGlobals}, key.all (!isWhitespace ·) = true →
      g.set key none = .ok (some g') → topLine (g, []) (0, key) = .ok (g', []) := by
    intro key g g' hkey h
    exact topLine_key (fun c hc => by simpa using List.all_eq_true.mp hkey c hc) h
  have h1 := foldlM_toList (f := fun acc l => topLine acc (0, l)) (if clusterName.isEmpty then none else some clusterName)
    (fun v => "cluster".toList ++ ' ' :: v) (fun v => (({ clusterName := v.getD [] } : TreeGlobals), ([] : List (Nat × Text))))
    rfl fun v hv => by
      obtain ⟨hne, rfl⟩ : clusterName ≠ [] ∧ clusterName = v := by simpa using hv
      exact hkey (by decide) (hname.resolve_left hne) rfl
  have hclear : (if clusterName.isEmpty then none else some clusterName).getD [] = clusterName := by
    cases clusterName <;> rfl
  rw [hclear] at h1
  have h2 := foldlM_toList (f := fun acc l => topLine acc (0, l)) catalog (fun v => "catalog".toList ++ ' ' :: v)
    (fun v => (({ clusterName, catalog := v } : TreeGlobals), ([] : List (Nat × Text)))) rfl
    fun v hv => hkey (by decide) (hg.catalog v hv) rfl
  have h3 := foldlM_toList (f := fun acc l => topLine acc (0, l)) readPrefer (fun v => "read_prefer".toList ++ ' ' :: v)
    (fun v => (({ clusterName, catalog, readPrefer := v } : TreeGlobals), ([] : List (Nat × Text)))) rfl
    fun v hv => hkey (by decide) (tight_readPrefer (hg.readPrefer v hv)) (if_pos (hg.readPrefer v hv))
  have h4 := foldlM_toList (f := fun acc l => topLine acc (0, l)) compression (fun v => "compression".toList ++ ' ' :: v)
    (fun v => (({ clusterName, catalog, readPrefer, compression := v } : TreeGlobals), ([] : List (Nat × Text)))) rfl
    fun v hv => hkey (by decide) (hg.compression v hv) rfl
  have h5 := foldlM_flag (f := fun acc l => topLine acc (0, l)) directIo "direct_io".toList
    (fun v => (({ clusterName, catalog, readPrefer, compression, directIo := v } : TreeGlobals), ([] : List (Nat × Text)))) rfl
    (hflag (by decide) rfl)
  have h6 := foldlM_toList (f := fun acc l => topLine acc (0, l)) sizeMb (fun n => "size_mb".toList ++ ' ' :: decimal n)
    (fun v => (({ clusterName, catalog, readPrefer, compression, directIo, sizeMb := v } : TreeGlobals), ([] : List (Nat × Text))))
    rfl fun n _ => hkey (by decide) (neat_decimal n).toTight (TreeGlobals.set_sizeMb _ (parseU64_decimal n))
  have h7 := foldlM_flag (f := fun acc l => topLine acc (0, l)) readOnly "read_only".toList
    (fun v => (({ clusterName, catalog, readPrefer, compression, directIo, sizeMb, readOnly := v } : TreeGlobals),
      ([] : List (Nat × Text)))) rfl (hflag (by decide) rfl)
  exact foldlM_append_ok (foldlM_append_ok (foldlM_append_ok (foldlM_append_ok (foldlM_append_ok (foldlM_append_ok h1 h2) h3) h4)
    h5) h6) h7

theorem neat_lines {g : TreeGlobals} (hg : g.WellFormed) (hname : g.clusterName = [] ∨ Tight g.clusterName) :
    ∀ l ∈ g.lines, Neat l := by
  have hkey : ∀ {key : Text}, key ≠ [] → key.all (fun c => !isWhitespace c && c != '#') = true → Neat key := by
    intro key hne hkey
    have hall : ∀ c ∈ key, isWhitespace c = false ∧ c ≠ '#' := fun c hc => by simpa using List.all_eq_true.mp hkey c hc
    refine ⟨⟨hne, fun c hc => (hall c (List.mem_of_mem_head? hc)).1, fun c hc => (hall c (List.mem_of_getLast? hc)).1, ?_⟩, ?_⟩
    · exact fun hm => absurd (hall _ hm).1 (by decide)
    · exact fun hh => (hall _ (List.mem_of_mem_head? hh)).2 rfl
  have hline : ∀ {key val : Text}, Neat key → Tight val → Neat (key ++ ' ' :: val) := by
    intro key val hkey hval
    have := hkey.append hval [' '] (by decide)
    rwa [List.append_assoc] at this
  simp only [TreeGlobals.lines, List.forall_mem_append, List.forall_mem_map, Option.mem_toList]
  refine ⟨⟨⟨⟨⟨⟨fun v hv => ?_, fun v hv => ?_⟩, fun v hv => ?_⟩, fun v hv => ?_⟩, forall_mem_flag ?_⟩, fun v _ => ?_⟩,
    forall_mem_flag ?_⟩
  · obtain ⟨hne, rfl⟩ : g.clusterName ≠ [] ∧ g.clusterName = v := by simpa using hv
    exact hline (hkey (by decide) (by decide)) (hname.resolve_left hne)
  · exact hline (hkey (by decide) (by decide)) (hg.catalog v hv)
  · exact hline (hkey (by decide) (by decide)) (tight_readPrefer (hg.readPrefer v hv))
  · exact hline (hkey (by decide) (by decide)) (hg.compression v hv)
  · exact hkey (by decide) (by decide)
  · exact hline (hkey (by decide) (by decide)) (neat_decimal v).toTight
  · exact hkey (by decide) (by decide)

/-- What begins with a quote is no directive. -/
theorem set_quote (g : TreeGlobals) {q : Char} (hq : isQuote q = true) (key : Text) (val : Option Text) :
    g.set (q :: key) val = .ok none := by
  rcases Bool.or_eq_true_iff.mp hq with hq | hq <;> obtain rfl := of_decide_eq_true hq <;>
    simp [TreeGlobals.set, treeDaemonDirectives, isSweepDirective]

theorem foldlM_indented (g : TreeGlobals) (acc : List (Nat × Text)) {ls : List (Nat × Text)} (h : ∀ l ∈ ls, 0 < l.1) :
    ls.foldlM topLine (g, acc) = .ok (g, acc ++ ls) := by
  induction ls generalizing acc with
  | nil => exact congrArg (fun l => Except.ok (g, l)) (List.append_nil acc).symm
  | cons l ls ih =>
    obtain ⟨hl, hls⟩ := List.forall_mem_cons.mp h
    rw [List.foldlM_cons, topLine, if_neg (Nat.ne_of_gt hl)]
    change ls.foldlM topLine (g, acc ++ [l]) = _
    rw [ih _ hls, List.append_assoc]
    rfl

theorem exists_treeText {g : TreeGlobals} {root : TreeNode} (hg : g.WellFormed) (hname : g.clusterName = [] ∨ Tight g.clusterName)
    (hroot : root.WellFormed) : ∃ text, isTreeConfig text = true ∧ parseTreeConf text =
      .ok { g with clusterName := if g.clusterName.isEmpty then root.name else g.clusterName, root } := by
  obtain ⟨ls, items, hls, hreads, hof⟩ := printable hroot 0
  have hline : root.line.WellFormed := by
    cases hroot with
    | intro h _ _ _ => exact h
  have hneat : ∀ l ∈ (g.lines.map fun l => (0, l)) ++ (0, root.line.text) :: ls, Neat l.2 := by
    refine List.forall_mem_append.mpr ⟨?_, List.forall_mem_cons.mpr ⟨NodeLine.neat_text hline, hls⟩⟩
    exact List.forall_mem_map.mpr (neat_lines hg hname)
  refine ⟨render ((g.lines.map fun l => (0, l)) ++ (0, root.line.text) :: ls), ?_, ?_⟩
  · rw [isTreeConfig, contentLines_render hneat, List.any_append, List.any_cons, NodeLine.isTreeNodeLine_text hline]
    simp
  · have htop : topLine (g, []) (0, root.line.text) = .ok (g, [(0, root.line.text)]) := by
      obtain ⟨q, rest, hq, htext⟩ := NodeLine.head_text hline
      have hws : isWhitespace q = false := by
        rcases Bool.or_eq_true_iff.mp hq with hq | hq <;> exact of_decide_eq_true hq ▸ by decide
      have hfirst : (splitKey root.line.text).1 = q :: rest.takeWhile (!isWhitespace ·) := by
        rw [splitKey, firstWord, htext, List.takeWhile_cons_of_pos (by simp [hws])]
      simp only [topLine, if_true, hfirst, set_quote g hq]
      rfl
    have hfold : ((g.lines.map fun l => (0, l)) ++ (0, root.line.text) :: ls).foldlM topLine ({}, []) =
        .ok (g, (0, root.line.text) :: ls) := by
      refine foldlM_append_ok (foldlM_lines hg hname) ?_
      rw [List.foldlM_cons, htop]
      exact foldlM_indented g _ fun l hl => hreads.lt l hl
    have hblock : parseTreeNodeBlock ((0, root.line.text) :: ls) = .ok (root, []) :=
      Outline.block_iff.mpr ⟨0, _, root.line, ls, items, by rw [List.append_nil], NodeLine.parse_text hline, hreads,
        (fun _ hx => by cases hx),
        hof.symm⟩
    rw [parseTreeConf, contentLines_render hneat, hfold]
    change ((parseTreeNodeBlock _ >>= fun x => _) : Except String TreeConf) = _
    rw [hblock]
    rfl

theorem exists_treeConf {c : TreeConf} (h : c.WellFormed) : ∃ text, isTreeConfig text = true ∧ parseTreeConf text = .ok c := by
  obtain ⟨g, root⟩ := c
  rcases h.clusterName with hname | hname
  · obtain ⟨text, htree, htext⟩ := exists_treeText h.globals (.inr hname) h.root
    have hne : g.clusterName.isEmpty = false := List.isEmpty_eq_false_iff.mpr hname.ne_nil
    exact ⟨text, htree, by rw [htext, if_neg (by simp [hne])]⟩
  · obtain ⟨text, htree, htext⟩ := exists_treeText (g := { g with clusterName := [] }) { h.globals with } (.inl rfl) h.root
    have hname : root.name = g.clusterName := hname.symm
    exact ⟨text, htree, by rw [htext]; simp [hname]⟩

/-! ### Flat files -/

def ClusterConf.wordLines (c : ClusterConf) : List (List Text) :=
  ["replicas".toList, decimal c.replicas] :: (c.minWrites.toList.map (fun n => ["min_writes".toList, decimal n]) ++
    c.catalog.toList.map (fun v => ["catalog".toList, v]) ++
    c.readPrefer.toList.map (fun v => ["read_prefer".toList, v]) ++
    (if c.directIo then [["direct_io".toList]] else []) ++
    c.compression.toList.map (fun v => ["compression".toList, v]) ++
    c.sizeMb.toList.map (fun n => ["size_mb".toList, decimal n]) ++
    (if c.readOnly then [["read_only".toList]] else []) ++
    (if c.deleteRequiresMinWrites then [["delete_requires_min_writes".toList]] else []) ++
    c.shards.map (fun s => "shard".toList :: s.words))

theorem numberedLines_snd (text : Text) : (numberedLines text).map (·.2) = contentLines text := by
  rw [numberedLines, contentLines]
  generalize textLines text = l
  suffices h : ∀ k, ((l.zipIdx k).filterMap fun raw => (contentLine raw.1).map fun l => (raw.2 + 1, l)).map (·.2) =
      l.filterMap contentLine from h 0
  induction l with
  | nil => exact fun _ => rfl
  | cons a l ih =>
    intro k
    rw [List.zipIdx_cons, List.filterMap_cons, List.filterMap_cons]
    cases contentLine a with
    | none => exact ih (k + 1)
    | some x => exact congrArg (x :: ·) (ih (k + 1))

/-- Lines of these words are read so, whatever their numbers. -/
inductive FlatRun : ClusterConf → List (List Text) → ClusterConf → Prop where
  | nil {c : ClusterConf} : FlatRun c [] c
  | cons {c c1 c2 : ClusterConf} {key : Text} {args : List Text} {lines : List (List Text)} :
      (∀ n trimmed, c.set n trimmed key args = .ok c1) → FlatRun c1 lines c2 → FlatRun c ((key :: args) :: lines) c2

namespace FlatRun

theorem append {c c1 c2 : ClusterConf} {lines lines' : List (List Text)} (h : FlatRun c lines c1) (h' : FlatRun c1 lines' c2) :
    FlatRun c (lines ++ lines') c2 := by
  induction h with
  | nil => exact h'
  | cons hset _ ih => exact .cons hset (ih h')

theorem toList {γ : Type} (v : Option γ) (key : Text) (arg : γ → Text) {c : ClusterConf} (c' : Option γ → ClusterConf)
    (hnone : c' none = c) (hsome : ∀ x ∈ v, ∀ n trimmed, c.set n trimmed key [arg x] = .ok (c' (some x))) :
    FlatRun c (v.toList.map fun x => [key, arg x]) (c' v) := by
  cases v with
  | none => exact hnone ▸ .nil
  | some x => exact .cons (hsome x rfl) .nil

theorem flag (flag : Bool) (key : Text) {c : ClusterConf} (c' : Bool → ClusterConf) (hfalse : c' false = c)
    (htrue : ∀ n trimmed, c.set n trimmed key [] = .ok (c' true)) : FlatRun c (if flag then [[key]] else []) (c' flag) := by
  cases flag with
  | false => exact hfalse ▸ .nil
  | true => exact .cons htrue .nil

theorem shards {c : ClusterConf} {shards : List ShardConf} (h : ∀ s ∈ shards, s.WellFormed) :
    FlatRun c (shards.map fun s => "shard".toList :: s.words) { c with shards := c.shards ++ shards } := by
  induction shards generalizing c with
  | nil =>
    rw [List.append_nil]
    exact .nil
  | cons s shards ih =>
    obtain ⟨hs, hshards⟩ := List.forall_mem_cons.mp h
    refine .cons (fun n trimmed => (?_ : c.set n trimmed _ _ = .ok { c with shards := c.shards ++ [s] })) ?_
    · change (parseShardTokens n s.words >>= fun x => pure { c with shards := c.shards ++ [x] }) = _
      rw [parseShardTokens_words n hs]
      rfl
    · have := ih (c := { c with shards := c.shards ++ [s] }) hshards
      rwa [show (c.shards ++ [s]) ++ shards = c.shards ++ s :: shards by simp] at this

theorem foldlM {c c' : ClusterConf} {lines : List (List Text)} (h : FlatRun c lines c') (hne : ∀ ws ∈ lines, ∀ w ∈ ws, w ≠ [])
    {nl : List (Nat × Nat × Text)} (hnl : nl.map (·.2) = lines.map fun ws => (0, quoted ws)) :
    nl.foldlM flatLine c = .ok c' := by
  induction h generalizing nl with
  | nil =>
    obtain rfl := List.map_eq_nil_iff.mp hnl
    rfl
  | @cons c c1 c2 key args lines hset _ ih =>
    obtain ⟨hws, hlines⟩ := List.forall_mem_cons.mp hne
    obtain ⟨⟨n, l⟩, nl, rfl, rfl, hrest⟩ := List.map_eq_cons_iff.mp hnl
    rw [List.foldlM_cons]
    have hline : flatLine c (n, 0, quoted (key :: args)) = .ok c1 := by
      rw [flatLine, if_neg (Nat.lt_irrefl 0)]
      simp only [tokenize_quoted hws, hset]
    rw [hline]
    exact ih hlines hrest

end FlatRun

theorem parseCount_decimal (key : String) (line : Nat) {n : UInt64} (h : n ≠ 0) : parseCount (decimal n) key line = .ok n := by
  simp [parseCount, parseU64_decimal, h]

theorem ClusterConf.set_sizeMb (c : ClusterConf) (line : Nat) (trimmed : Text) {v : Text} {n : UInt64} (h : parseU64 v = some n) :
    c.set line trimmed "size_mb".toList [v] = .ok { c with sizeMb := some n } := by
  conv => lhs; whnf
  rw [h]
  rfl

theorem flatRun_wordLines {c : ClusterConf} (h : c.WellFormed) : FlatRun {} c.wordLines c := by
  obtain ⟨replicas, minWrites, catalog, readPrefer, directIo, compression, sizeMb, readOnly, strict, shards⟩ := c
  refine .cons (fun n trimmed => (?_ : ClusterConf.set {} n trimmed _ _ = .ok { replicas })) ?_
  · change (parseCount (decimal replicas) "replicas" n >>= fun x => pure ({ replicas := x } : ClusterConf)) = _
    rw [parseCount_decimal _ _ h.replicas]
    rfl
  have h1 := FlatRun.toList minWrites "min_writes".toList decimal (fun v => ({ replicas, minWrites := v } : ClusterConf)) rfl
    fun v hv n trimmed => by
      change (parseCount (decimal v) "min_writes" n >>= fun x => pure _) = _
      rw [parseCount_decimal _ _ (h.minWrites v hv).1]
      rfl
  have h2 := FlatRun.toList catalog "catalog".toList id (fun v => ({ replicas, minWrites, catalog := v } : ClusterConf)) rfl
    fun v _ n trimmed => rfl
  have h3 := FlatRun.toList readPrefer "read_prefer".toList id
    (fun v => ({ replicas, minWrites, catalog, readPrefer := v } : ClusterConf)) rfl fun v hv n trimmed => by
      change (if isReadPrefer v then _ else _) = _
      rw [if_pos (h.readPrefer v hv)]
      rfl
  have h4 := FlatRun.flag directIo "direct_io".toList
    (fun v => ({ replicas, minWrites, catalog, readPrefer, directIo := v } : ClusterConf)) rfl fun n trimmed => rfl
  have h5 := FlatRun.toList compression "compression".toList id
    (fun v => ({ replicas, minWrites, catalog, readPrefer, directIo, compression := v } : ClusterConf)) rfl
    fun v _ n trimmed => rfl
  have h6 := FlatRun.toList sizeMb "size_mb".toList decimal
    (fun v => ({ replicas, minWrites, catalog, readPrefer, directIo, compression, sizeMb := v } : ClusterConf)) rfl
    fun v _ n trimmed => ClusterConf.set_sizeMb _ n trimmed (parseU64_decimal v)
  have h7 := FlatRun.flag readOnly "read_only".toList
    (fun v => ({ replicas, minWrites, catalog, readPrefer, directIo, compression, sizeMb, readOnly := v } : ClusterConf)) rfl
    fun n trimmed => rfl
  have h8 := FlatRun.flag strict "delete_requires_min_writes".toList
    (fun v => ({ replicas, minWrites, catalog, readPrefer, directIo, compression, sizeMb, readOnly, deleteRequiresMinWrites := v } :
      ClusterConf)) rfl fun n trimmed => rfl
  have h9 := FlatRun.shards
    (c := ⟨replicas, minWrites, catalog, readPrefer, directIo, compression, sizeMb, readOnly, strict, []⟩) h.shards
  exact (((((((h1.append h2).append h3).append h4).append h5).append h6).append h7).append h8).append h9

theorem exists_flatText {c : ClusterConf} (h : c.WellFormed) :
    ∃ text, isTreeConfig text = false ∧ parseClusterConf text = .ok c := by
  have hword : ∀ ws ∈ c.wordLines, ws ≠ [] ∧ ∀ w ∈ ws, Word w := by
    have hkey : ∀ {key : Text}, key ≠ [] → '\n' ∉ key → [key] ≠ [] ∧ ∀ w ∈ [key], Word w := fun hne hline =>
      ⟨List.cons_ne_nil _ _, fun w hw => List.mem_singleton.mp hw ▸ ⟨hne, hline⟩⟩
    have hpair : ∀ {key v : Text}, key ≠ [] → '\n' ∉ key → Word v → [key, v] ≠ [] ∧ ∀ w ∈ [key, v], Word w := fun hne hline hv =>
      ⟨List.cons_ne_nil _ _, List.forall_mem_cons.mpr ⟨⟨hne, hline⟩, fun w hw => List.mem_singleton.mp hw ▸ hv⟩⟩
    have hdecimal : ∀ n, Word (decimal n) := fun n => ⟨decimal_ne_nil n, oneLine_decimal n⟩
    have hprefer : ∀ {v}, isReadPrefer v = true → Word v := fun hv => ⟨(tight_readPrefer hv).ne_nil, (tight_readPrefer hv).newline⟩
    have hflag : ∀ {flag : Bool} {key : Text}, key ≠ [] → '\n' ∉ key →
        ∀ ws ∈ (if flag then [[key]] else []), ws ≠ [] ∧ ∀ w ∈ ws, Word w := by
      intro flag key hne hline ws hws
      cases flag with
      | false => cases hws
      | true => exact List.mem_singleton.mp hws ▸ hkey hne hline
    refine List.forall_mem_cons.mpr ⟨hpair (by decide) (by decide) (hdecimal _), ?_⟩
    simp only [List.forall_mem_append, List.forall_mem_map, Option.mem_toList]
    refine ⟨⟨⟨⟨⟨⟨⟨⟨?_, ?_⟩, ?_⟩, hflag (by decide) (by decide)⟩, ?_⟩, ?_⟩, hflag (by decide) (by decide)⟩,
      hflag (by decide) (by decide)⟩, ?_⟩
    · exact fun n _ => hpair (by decide) (by decide) (hdecimal n)
    · exact fun v hv => hpair (by decide) (by decide) (h.catalog v hv)
    · exact fun v hv => hpair (by decide) (by decide) (hprefer (h.readPrefer v hv))
    · exact fun v hv => hpair (by decide) (by decide) (h.compression v hv)
    · exact fun n _ => hpair (by decide) (by decide) (hdecimal n)
    · exact fun s hs => ⟨List.cons_ne_nil _ _, List.forall_mem_cons.mpr ⟨by constructor <;> decide, word_shardWords (h.shards s hs)⟩⟩
  have hneat : ∀ l ∈ c.wordLines.map fun ws => (0, quoted ws), Neat l.2 :=
    List.forall_mem_map.mpr fun ws hws => neat_quoted (hword ws hws).1 (hword ws hws).2
  refine ⟨render (c.wordLines.map fun ws => (0, quoted ws)), ?_, ?_⟩
  · rw [isTreeConfig, contentLines_render hneat, List.any_map]
    refine List.any_eq_false.mpr fun ws hws => ?_
    simp [isTreeNodeLine_quoted (hword ws hws).1 fun w hw => ((hword ws hws).2 w hw).1]
  · have hrun := (flatRun_wordLines h).foldlM (fun ws hws w hw => ((hword ws hws).2 w hw).1)
      ((numberedLines_snd _).trans (contentLines_render hneat))
    rw [parseClusterConf, hrun]
    change c.checked = _
    unfold ClusterConf.checked
    rw [if_neg (by simpa using h.nonempty)]
    cases hmw : c.minWrites with
    | none => rfl
    | some v => exact if_neg (UInt64.not_lt.mpr (h.minWrites v hmw).2)

/-! ## Exactness -/

/-- Each parser returns exactly the well-formed configs. -/
theorem confs_are_exact :
    (∀ c : TreeConf, (∃ text, parseTreeConf text = .ok c) ↔ c.WellFormed) ∧
      (∀ c : ClusterConf, (∃ text, parseClusterConf text = .ok c) ↔ c.WellFormed) ∧
      ∀ c : TreeConf, (∃ text, loadAutoConf text = .ok c) ↔ c.WellFormed ∨ ∃ flat : ClusterConf, flat.WellFormed ∧ c = flat.asTree := by
  refine ⟨fun c => ⟨fun h => ?_, fun h => ?_⟩, fun c => ⟨fun h => ?_, fun h => ?_⟩, fun c => ⟨fun h => ?_, fun h => ?_⟩⟩
  · obtain ⟨text, h⟩ := h
    exact wellFormed_parseTreeConf h
  · obtain ⟨text, -, htext⟩ := exists_treeConf h
    exact ⟨text, htext⟩
  · obtain ⟨text, h⟩ := h
    exact wellFormed_parseClusterConf h
  · obtain ⟨text, -, htext⟩ := exists_flatText h
    exact ⟨text, htext⟩
  · obtain ⟨text, h⟩ := h
    rcases ite_ok h with ⟨-, h⟩ | ⟨-, h⟩
    · exact .inl (wellFormed_parseTreeConf h)
    · cases hflat : parseClusterConf text with
      | error e => rw [hflat] at h; cases h
      | ok flat =>
        rw [hflat] at h
        cases h
        exact .inr ⟨flat, wellFormed_parseClusterConf hflat, rfl⟩
  · rcases h with h | ⟨flat, hflat, rfl⟩
    · obtain ⟨text, htree, htext⟩ := exists_treeConf h
      exact ⟨text, by rw [loadAutoConf, if_pos htree, htext]⟩
    · obtain ⟨text, htree, htext⟩ := exists_flatText hflat
      exact ⟨text, by rw [loadAutoConf, if_neg (by simp [htree]), htext]; rfl⟩

end ObjStr.Conf
