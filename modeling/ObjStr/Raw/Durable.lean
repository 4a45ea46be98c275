/-
  ObjStr.Raw.Durable — what of the map outlives the machine (`store.rs`).

  An uptime is a life without restarts, beside the map its calls have made and the keys that are quiet: those that no call
  has named since the last flush that returned. The machine stops anywhere in a call, a flush included, and its caches lose
  what they had not written, block by block.
  - `Uptime.held`: every index that a crash may leave has the quiet keys as the map has them, down to the bytes.
  - `flushed_objects_survive`: an open with a full scan returns, and reads of a quiet key are those of the map; only the
    parts of uploads are gone.
-/

import ObjStr.Raw.Objects
import ObjStr.Raw.Recovered
import ObjStr.Raw.Uploads

namespace ObjStr.Raw

open ObjStr.Lib DeviceIo

/-- A call does nothing to other keys. -/
theorem Op.does_other (op : Op) (m : Objects) {k : Key} (hk : k ∉ op.keys) : op.does m k = m k := by
  cases op <;> simp_all [Op.keys, Op.does, Objects.put, Objects.drop, Function.update_of_ne]

section Durable

variable [Crates] {s s' : Store} {m : Objects} {k : Key} {caches : Cached} {L : Ledger} {quiet : Key → Prop} {d : Disk}

/-! ## Uptimes -/

/-- The keys that stay quiet in a call: all of them if it flushes, else those that it does not name. -/
def TimedCall.quiets (c : TimedCall) (s : Store) (quiet : Key → Prop) : Key → Prop :=
  match c.call, (c.exec s).1 with
  | .flushIndex, .ok _ | .repair, .ok _ => fun _ => True
  | .op o, _ => fun k => quiet k ∧ k ∉ o.keys
  | _, _ => quiet

/-- A life without restarts, beside the map that its calls have made and its quiet keys. -/
inductive Uptime : Cached → Store → Ledger → Objects → (Key → Prop) → Prop
  | format {opts : FormatOptions} {bytes : Nat → UInt8} {script : List Outcome} {s : Store} {io : DeviceIo}
      (h : (formatWithOptions opts).exec (opts.device bytes script) = (.ok s, io)) :
      Uptime (Cached.run ⟨⟨opts.deviceSize, bytes⟩, []⟩ s.io.log) s ⟨⟨.empty, s.io.dev, fun _ => True⟩, none⟩ .empty fun _ => True
  | call {caches : Cached} {s : Store} {L : Ledger} {m : Objects} {quiet : Key → Prop} (h : Uptime caches s L m quiet)
      (c : TimedCall) (hc : L.Allows s c.call) (hk : c.call.Keeps) :
      Uptime (caches.run (c.events s)) (c.exec s).2 (L.record s c.call (c.exec s)) (m.told c.call (c.exec s).1) (c.quiets s quiet)

/-- The indexes of the ledger have the quiet keys as the map does. -/
structure Held (s : Store) (L : Ledger) (m : Objects) (quiet : Key → Prop) : Prop where
  spared : ∀ E, L.Has E → ∀ k, quiet k → E.spared k
  holds : ∀ E, L.Has E → ∀ k, quiet k → Option.Rel (ExtentInfo.Keeps s.compression E.device) (E.index.files.lookup k) (m k)

theorem Uptime.life (h : Uptime caches s L m quiet) : Life caches s L := by
  induction h with
  | format h => exact .format h
  | call _ c hc _ ih => exact .call ih c hc

theorem Uptime.serves (h : Uptime caches s L m quiet) : Serves s m := by
  induction h with
  | format h => exact (formatted h).serves
  | call _ c _ hk ih => exact (ih.call c hk).2

/-- The epoch of a flush has the map. -/
theorem Serves.epoch (h : Serves s m) (k : Key) :
    Option.Rel (ExtentInfo.Keeps s.compression (Epoch.of s).device) ((Epoch.of s).index.files.lookup k) (m k) := h.holds k

/-- A call of a client. -/
theorem Held.op (h : Held s L m quiet) (hs : Serves s m) (o : Op) (hop : Proper s (.op o)) (now : DateTime) (script : List Outcome)
    (r : Except RawStoreError Unit) :
    Held ((o.run now).exec (s.withScript script)).2
      ⟨L.last.after s ((o.run now).exec (s.withScript script)).2, L.tried.map (Epoch.after s ((o.run now).exec (s.withScript script)).2)⟩
      (m.told (.op o) r) fun k => quiet k ∧ k ∉ o.keys := by
  have h1 := hs.withScript script
  have hstep : Step .index (s.withScript script) ((o.run now).exec (s.withScript script)).2 :=
    o.step now h1.space h1.padded (o.sound_of_ne (by decide)) fun hne => absurd rfl hne
  have hcompression : ((o.run now).exec (s.withScript script)).2.compression = s.compression := by
    rw [hstep.frame]
    rfl
  have htold : ∀ k, k ∉ o.keys → m.told (.op o) r k = m k := by
    intro k hk
    cases r with
    | ok => exact o.does_other m hk
    | error => rfl
  refine ⟨fun E' hE' k hk => ?_, fun E' hE' k hk => ?_⟩
  · obtain ⟨E, hE, rfl⟩ := Ledger.has_after hE'
    exact ⟨h.spared E hE k hk.1, (o.spared now h1.sane hop).files k hk.2⟩
  · obtain ⟨E, hE, rfl⟩ := Ledger.has_after hE'
    rw [hcompression, htold k hk.2]
    exact h.holds E hE k hk.1

theorem Uptime.held (h : Uptime caches s L m quiet) : Held s L m quiet := by
  induction h with
  | format h =>
    refine ⟨fun E hE k _ => ?_, fun E hE k _ => ?_⟩
    · rw [(Ledger.has_none rfl).mp hE]
      trivial
    · rw [(Ledger.has_none rfl).mp hE]
      exact .none
  | @call caches s L m quiet hprev c hc hk ih =>
    have hserves := hprev.serves
    have h1 := hserves.withScript c.script
    rcases hc.cases with ⟨op, hop, hproper⟩ | ⟨hflush, hL, htxn⟩
    · obtain ⟨call, now, script⟩ := c
      subst hop
      exact ih.op hserves op hproper now script _
    · have hexec : c.exec s = flushIndex.exec (s.withScript c.script) := exec_flushes h1.sane hflush c.now
      have hcompression : (flushIndex.exec (s.withScript c.script)).2.compression = s.compression := by
        rw [flush_frame (s.withScript c.script)]
        rfl
      have hsame : ∀ r, m.told c.call r = m := by
        intro r
        rcases hflush with hflush | hflush <;> rw [hflush] <;> cases r <;> rfl
      rw [hsame]
      cases hres : flushIndex.exec (s.withScript c.script) with
      | mk r s' =>
        rw [hres] at hcompression
        rw [hexec, hres]
        cases r with
        | ok =>
          have hrec : L.record s c.call (.ok (), s') = ⟨.of s, none⟩ := by
            rcases hflush with hflush | hflush <;> rw [hflush] <;> rfl
          rw [hrec]
          refine ⟨fun E hE k _ => ?_, fun E hE k _ => ?_⟩
          · rw [(Ledger.has_none rfl).mp hE]
            trivial
          · rw [(Ledger.has_none rfl).mp hE, hcompression]
            exact hserves.epoch k
        | error e =>
          have hrec : L.record s c.call (.error e, s') = ⟨L.last, some (.of s)⟩ := by
            rcases hflush with hflush | hflush <;> rw [hflush] <;> rfl
          have hquiet : c.quiets s quiet = quiet := by
            unfold TimedCall.quiets
            rw [hexec, hres]
            rcases hflush with hflush | hflush <;> rw [hflush]
          rw [hrec, hquiet]
          refine ⟨fun E hE k hk => ?_, fun E hE k hk => ?_⟩
          · rcases hE with rfl | hE
            · exact ih.spared _ (.inl rfl) k hk
            · rw [← Option.some.inj hE]
              trivial
          · rw [hcompression]
            rcases hE with rfl | hE
            · exact ih.holds _ (.inl rfl) k hk
            · rw [← Option.some.inj hE]
              exact hserves.epoch k

/-! ## After a crash -/

theorem Stores.intact {c : Compression} {info : ExtentInfo} {payload : Bytes} (h : Stores c d info payload) : Intact d info := by
  obtain ⟨p, hlen, hholds, hcrc, -⟩ := h
  refine ⟨p, ?_, hcrc⟩
  rw [← hlen]
  exact hholds.decode

/-- Reads of a quiet key, after a crash and a full open. -/
theorem flushed_objects_survive (h : Uptime caches s L m quiet) {c : TimedCall} (hc : L.Allows s c.call)
    (hd : c.Stops s caches d) :
    ∃ s' io, (openImpl .fullVerify false).exec (.onDisk d false []) = (.ok s', io) ∧
      ∀ key, quiet key → ¬ Reserved key → Shows s' key (m key) := by
  obtain ⟨E, s', io, hE, hrun, hrecovered, hsane, hcompression, hdev, hextents⟩ := full_open_finds h.life hc hd
  have hserves := h.serves
  refine ⟨s', io, hrun, fun key hquiet hres => ?_⟩
  obtain ⟨hspared, hholds, hlookup⟩ : E.spared key ∧
      Option.Rel (ExtentInfo.Keeps s.compression E.device) (E.index.files.lookup key) (m key) ∧
      s.files.lookup key = E.index.files.lookup key := by
    rcases hE with hE | ⟨-, rfl⟩
    · have hspared := h.held.spared E hE key hquiet
      exact ⟨hspared, h.held.holds E hE key hquiet, h.life.accounts.spared E hE key hspared⟩
    · exact ⟨trivial, hserves.epoch key, rfl⟩
  cases hl : E.index.files.lookup key with
  | none =>
    rw [hl] at hholds
    have hnone : s'.files.lookup key = none := by
      cases hs' : s'.files.lookup key with
      | none => rfl
      | some info =>
        have := ((hrecovered.kept key info).mp hs').1
        rw [hl] at this
        cases this
    cases hm : m key with
    | none => exact showsNone_of_lookup hnone
    | some o =>
      rw [hm] at hholds
      cases hholds
  | some info =>
    rw [hl] at hholds hlookup
    cases hm : m key with
    | none =>
      rw [hm] at hholds
      cases hholds
    | some o =>
      rw [hm] at hholds
      cases hholds with
      | some hkeeps =>
        have hintact := (hrecovered.spared key info hspared hl).1.mpr hkeeps.stored.intact
        have hlisted := (hrecovered.kept key info).mpr ⟨hl, hres, hintact⟩
        have hread := hextents key info hspared hl
        rw [(hsane.padded key info hlisted).padded, ← hdev] at hread
        have hkept : info.Keeps s'.compression s'.io.dev o := by
          rw [hcompression]
          exact hkeeps.congr hread
        refine (hsane.isObject hlisted hkept.stored).shows hkept.split fun hoff => hserves.plain ?_ key info hlookup
        rw [← hcompression]
        exact hoff

end Durable

open Sample

/-- An object is put and flushed, and the machine stops in its delete: a full open finds it. -/
theorem a_flushed_object_survives_its_delete : ∃ d s' io, (openImpl .fullVerify false).exec (.onDisk d false []) = (.ok s', io) ∧
    ShowsObject s' "k" ⟨[1], []⟩ := by
  obtain ⟨s0, s1, s, info, h⟩ := flushed_once
  obtain ⟨io, hformat⟩ := h.format
  have hwritten := (Uptime.format hformat).call ⟨.op (.putOpts "k" [1] .overwrite), 0, []⟩ ⟨trivial, fun h => h.elim⟩ trivial
  rw [h.put] at hwritten
  have hflushed := hwritten.call ⟨.flushIndex, 0, []⟩ ⟨trivial, fun _ => ⟨rfl, by rw [h.txns.1]; decide⟩⟩ trivial
  have hquiet : TimedCall.quiets ⟨.flushIndex, 0, []⟩ s1
      (TimedCall.quiets ⟨.op (.putOpts "k" [1] .overwrite), 0, []⟩ s0 fun _ => True) = fun _ => True := by
    simp only [TimedCall.quiets, h.flush]
  rw [hquiet, h.flush] at hflushed
  obtain ⟨s', io', hopen, hshows⟩ := flushed_objects_survive (c := ⟨.op (.delete "k"), 0, []⟩) hflushed ⟨trivial, fun h => h.elim⟩
    ⟨0, Cached.leaves_device _ _⟩
  exact ⟨_, s', io', hopen, hshows "k" trivial (by decide)⟩

end ObjStr.Raw
