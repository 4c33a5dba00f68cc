import Csc412.Raft.Config

/-!
# Who writes to which persister

What an event can do, apart from the network. No two instances have one persister and
none has the one that `crash1` and `start1` carry from the last instance of a server to
the next, so its content stays.
-/

namespace Csc412.Raft

open Labrpc

section
variable {E V T : Type}

/-! ## What an event does -/

def Pc.quiet : Pc → Bool
  | .disableOut _ | .disableIn _ | .deleteServer | .makeEnd _ | .connect _ | .addServer => true
  | _ => false

def Pc.reads : Pc → Bool
  | .copySaved | .readRaftState | .readSnapshot | .renew => true
  | _ => false

def Driver.advance (n : Nat) (d : Driver) : Driver := { d with pc := d.pc.next n d.start }

/-- Everything an event can do, apart from the network. -/
inductive Effect (n : Nat) (s : System E V T) : Event E V T → System E V T → Prop
  | rpc {l} : external l = true → Effect n s (.rpc l) s
  | save {rf x c r} : s.instances rf = some r → (∀ c', c = some c' → s.handles c' rf = true) →
      Effect n s (.save rf x c) { s with
          persisters := Function.update s.persisters r.persister (some x) }
  | begin {i start} : (s.drivers i).pc = .idle →
      Effect n s (.begin i start) (s.setDriver i ⟨crash1 n, start, [], [], none, none⟩)
  | endnames {i names} : (s.drivers i).pc = .newEndnames →
      Effect n s (.endnames i names)
        ({ s with endnames := Function.update s.endnames i (some names) }.setDriver i
          ((s.drivers i).advance n))
  | quiet {i pc fresh} : (s.drivers i).pc = pc → pc.quiet = true ∨ pc.reads = true ∧
    s.savedContent i = none →
      Effect n s (.op i pc fresh) (s.setDriver i ((s.drivers i).advance n))
  | copySaved {i fresh x} : (s.drivers i).pc = .copySaved → s.savedContent i = some x →
    s.persisters fresh = none →
      Effect n s (.op i .copySaved fresh)
        ((s.setSaved i fresh x).setDriver i ((s.drivers i).advance n))
  | clearRaft {i fresh} : (s.drivers i).pc = .clearRaft →
      Effect n s (.op i .clearRaft fresh)
        ({ s with rafts := Function.update s.rafts i none }.setDriver i ((s.drivers i).advance n))
  | readRaftState {i fresh x} : (s.drivers i).pc = .readRaftState → s.savedContent i = some x →
      Effect n s (.op i .readRaftState fresh)
        (s.setDriver i { (s.drivers i).advance n with raftlog := x.raftstate })
  | readSnapshot {i fresh x} : (s.drivers i).pc = .readSnapshot → s.savedContent i = some x →
      Effect n s (.op i .readSnapshot fresh)
        (s.setDriver i { (s.drivers i).advance n with snapshot := x.snapshot })
  | renew {i fresh} : (s.drivers i).pc = .renew → s.saved i ≠ none → s.persisters fresh = none →
      Effect n s (.op i .renew fresh)
        ((s.setSaved i fresh ⟨(s.drivers i).raftlog, (s.drivers i).snapshot⟩).setDriver i
          ((s.drivers i).advance n))
  | copyOrMake {i fresh x} : (s.drivers i).pc = .copyOrMake → s.persisters fresh = none →
      s.savedContent i = some x ∨ s.savedContent i = none ∧ x = makePersister →
      Effect n s (.op i .copyOrMake fresh)
        ((s.setSaved i fresh x).setDriver i ((s.drivers i).advance n))
  | make {i fresh p} : (s.drivers i).pc = .make → s.saved i = some p → s.instances fresh = none →
      Effect n s (.op i .make fresh)
        ({ s with instances := Function.update s.instances fresh (some ⟨i, p⟩) }.setDriver i
          { (s.drivers i).advance n with rf := some fresh })
  | setRaft {i fresh} : (s.drivers i).pc = .setRaft →
      Effect n s (.op i .setRaft fresh)
        ({ s with rafts := Function.update s.rafts i (s.drivers i).rf }.setDriver i
          ((s.drivers i).advance n))
  | makeServer {i fresh} : (s.drivers i).pc = .makeServer →
      Effect n s (.op i .makeServer fresh)
        (s.setDriver i { (s.drivers i).advance n with srv := some fresh })
  | addService {i fresh o} : (s.drivers i).pc = .addService → (s.drivers i).srv = some o →
      Effect n s (.op i .addService fresh)
        ({ s with receiver := Function.update s.receiver o (s.drivers i).rf }.setDriver i
          ((s.drivers i).advance n))

variable {n : Nat} {s s' : System E V T} {e : Event E V T}

theorem exec_spec {i fresh : Nat} {pc : Pc} (hp : (s.drivers i).pc = pc) {s₁ : System E V T}
    {d : Driver} (h : s.exec i fresh (s.drivers i) = some (s₁, d)) :
    Effect n s (.op i pc fresh)
        (s₁.setDriver i { d with pc := pc.next n (s.drivers i).start }) := by
  have hadv : ({ s.drivers i with pc := pc.next n (s.drivers i).start } : Driver) =
      (s.drivers i).advance n := by
    rw [Driver.advance, hp]
  unfold System.exec at h
  rw [hp] at h
  cases pc with
  | copySaved =>
    simp only at h
    split at h
    · rename_i hx
      cases h
      rw [hadv]
      exact .quiet hp (.inr ⟨rfl, hx⟩)
    · rename_i x hx
      split at h <;> cases h
      rename_i hf
      rw [hadv]
      exact .copySaved hp hx (by simpa using hf)
  | clearRaft =>
    cases h
    rw [hadv]
    exact .clearRaft hp
  | readRaftState =>
    simp only at h
    split at h <;> cases h
    · rename_i hx
      rw [hadv]
      exact .quiet hp (.inr ⟨rfl, hx⟩)
    · rename_i x hx
      have hr : Effect n s (.op i .readRaftState fresh)
        (s.setDriver i { (s.drivers i).advance n with raftlog := x.raftstate }) :=
          .readRaftState hp hx
      rw [← hadv] at hr
      exact hr
  | readSnapshot =>
    simp only at h
    split at h <;> cases h
    · rename_i hx
      rw [hadv]
      exact .quiet hp (.inr ⟨rfl, hx⟩)
    · rename_i x hx
      have hr : Effect n s (.op i .readSnapshot fresh)
        (s.setDriver i { (s.drivers i).advance n with snapshot := x.snapshot }) :=
          .readSnapshot hp hx
      rw [← hadv] at hr
      exact hr
  | renew =>
    simp only at h
    split at h
    · rename_i hx
      cases h
      rw [hadv]
      exact .quiet hp (.inr ⟨rfl, by simp [System.savedContent, hx]⟩)
    · rename_i p hx
      split at h <;> cases h
      rename_i hf
      rw [hadv]
      exact .renew hp (by simp [hx]) (by simpa using hf)
  | copyOrMake =>
    simp only at h
    split at h
    · cases h
    · rename_i hf
      split at h <;> cases h
      · rename_i hx
        rw [hadv]
        exact .copyOrMake hp (by simpa using hf) (.inr ⟨hx, rfl⟩)
      · rename_i x hx
        rw [hadv]
        exact .copyOrMake hp (by simpa using hf) (.inl hx)
  | make =>
    simp only at h
    split at h
    · cases h
    · rename_i p hx
      split at h <;> cases h
      rename_i hf
      have hr : Effect n s (.op i .make fresh)
        ({ s with instances := Function.update s.instances fresh (some ⟨i, p⟩) }.setDriver i
          { (s.drivers i).advance n with rf := some fresh }) := .make hp hx (by simpa using hf)
      rw [← hadv] at hr
      exact hr
  | setRaft =>
    cases h
    rw [hadv]
    exact .setRaft hp
  | makeServer =>
    cases h
    have hr : Effect n s (.op i .makeServer fresh)
      (s.setDriver i { (s.drivers i).advance n with srv := some fresh }) := .makeServer hp
    rw [← hadv] at hr
    exact hr
  | addService =>
    simp only at h
    split at h <;> cases h
    rename_i o hx
    rw [hadv]
    exact .addService hp hx
  | idle | newEndnames => cases h
  | _ =>
    cases h
    rw [hadv]
    exact .quiet hp (.inl rfl)

theorem effect_spec (h : s.effect n e = some s') : Effect n s e s' := by
  cases e with
  | rpc l =>
    simp only [System.effect] at h
    split at h <;> cases h
    rename_i hl
    exact .rpc hl
  | save rf x c =>
    simp only [System.effect] at h
    split at h
    · cases h
    · rename_i hr
      split at h <;> cases h
      rename_i hc
      refine .save hr fun c' hc' => ?_
      rw [hc'] at hc
      simpa using hc
  | begin i start =>
    simp only [System.effect] at h
    split at h <;> cases h
    rename_i hp
    exact .begin hp
  | endnames i names =>
    simp only [System.effect] at h
    split at h <;> cases h
    rename_i hp
    exact .endnames hp
  | op i pc fresh =>
    simp only [System.effect] at h
    split at h
    · rename_i hp
      obtain ⟨⟨s₁, d⟩, hx, rfl⟩ := Option.map_eq_some_iff.mp h
      exact exec_spec hp hx
    · cases h

theorem setDriver_drivers (s : System E V T) (i : Nat) (d : Driver) (j : Nat) :
    (s.setDriver i d).drivers j = if j = i then d else s.drivers j := by
  simp only [System.setDriver, Function.update_apply]

theorem setSaved_saved (s : System E V T) (i fresh : Nat) (x : Persister) (j : Nat) :
    (s.setSaved i fresh x).saved j = if j = i then some fresh else s.saved j := by
  simp only [System.setSaved, Function.update_apply]

theorem setSaved_persisters (s : System E V T) (i fresh : Nat) (x : Persister) (p : Nat) :
    (s.setSaved i fresh x).persisters p = if p = fresh then some x else s.persisters p := by
  simp only [System.setSaved, Function.update_apply]

/-! ## Who writes to which persister -/

/-- The instance that was made last still has `cfg.saved[i]` for its persister. -/
def Pc.beforeCopy : Pc → Bool
  | .idle | .disableOut _ | .disableIn _ | .deleteServer | .copySaved => true
  | .setRaft | .makeServer | .addService | .addServer => true
  | _ => false

theorem Pc.beforeCopy_next {pc : Pc} (h : pc.beforeCopy = true) (hc : pc ≠ .copySaved)
    (start : Bool) :
    (pc.next n start).beforeCopy = true := by
  cases pc with
  | disableOut j | disableIn j =>
    simp only [Pc.next]
    split <;> rfl
  | copySaved => exact absurd rfl hc
  | idle | deleteServer | setRaft | makeServer | addService | addServer => rfl
  | _ => cases h

structure PersistInv (s : System E V T) : Prop where
  saved_exists : ∀ i p, s.saved i = some p → (s.persisters p).isSome
  inst_exists : ∀ rf r, s.instances rf = some r → (s.persisters r.persister).isSome
  saved_inj : ∀ i j p, s.saved i = some p → s.saved j = some p → i = j
  inst_inj : ∀ rf rf' r r', s.instances rf = some r → s.instances rf' = some r' →
    r.persister = r'.persister → rf = rf'
  held : ∀ i rf r, s.instances rf = some r → s.saved i = some r.persister →
    r.me = i ∧ (s.drivers i).pc.beforeCopy = true

theorem PersistInv.move (h : PersistInv s) {s₁ : System E V T}
    (hp : ∀ p, (s.persisters p).isSome → (s₁.persisters p).isSome)
    (hi : s₁.instances = s.instances) (hs : s₁.saved = s.saved)
    (hd : ∀ i, s.saved i ≠ none → (s.drivers i).pc.beforeCopy = true →
      (s₁.drivers i).pc.beforeCopy = true) :
    PersistInv s₁ := by
  refine ⟨fun i p hip => ?_, fun rf r hr => ?_, ?_, ?_, fun i rf r hr hip => ?_⟩
  · rw [hs] at hip
    exact hp p (h.saved_exists i p hip)
  · rw [hi] at hr
    exact hp _ (h.inst_exists rf r hr)
  · rw [hs]
    exact h.saved_inj
  · rw [hi]
    exact h.inst_inj
  · rw [hi] at hr
    rw [hs] at hip
    obtain ⟨hme, hpc⟩ := h.held i rf r hr hip
    exact ⟨hme, hd i (by simp [hip]) hpc⟩

theorem PersistInv.setSaved (h : PersistInv s) {i fresh : Nat} (hf : s.persisters fresh = none)
    (x : Persister) (d : Driver) :
    PersistInv ((s.setSaved i fresh x).setDriver i d) := by
  have hne : ∀ p, (s.persisters p).isSome → p ≠ fresh := by
    rintro p hp rfl
    rw [hf] at hp
    cases hp
  have hkeep : ∀ p, (s.persisters p).isSome → ((s.setSaved i fresh x).persisters p).isSome := by
    intro p hp
    rw [setSaved_persisters, if_neg (hne p hp)]
    exact hp
  refine ⟨fun j p hj => ?_, fun rf r hr => hkeep _ (h.inst_exists rf r hr), fun j k p hj hk => ?_,
    h.inst_inj,
    fun j rf r hr hj => ?_⟩
  · change (s.setSaved i fresh x).saved j = some p at hj
    rw [setSaved_saved] at hj
    split at hj
    · cases hj
      change ((s.setSaved i fresh x).persisters fresh).isSome
      rw [setSaved_persisters, if_pos rfl]
      rfl
    · exact hkeep p (h.saved_exists j p hj)
  · change (s.setSaved i fresh x).saved j = some p at hj
    change (s.setSaved i fresh x).saved k = some p at hk
    rw [setSaved_saved] at hj hk
    split at hj
    · rename_i hji
      split at hk
      · rename_i hki
        rw [hji, hki]
      · cases hj
        exact absurd rfl (hne _ (h.saved_exists k _ hk))
    · split at hk
      · cases hk
        exact absurd rfl (hne _ (h.saved_exists j _ hj))
      · exact h.saved_inj j k p hj hk
  · change (s.setSaved i fresh x).saved j = some r.persister at hj
    rw [setSaved_saved] at hj
    split at hj
    · have hex := h.inst_exists rf r hr
      cases hj
      exact absurd rfl (hne _ hex)
    · rename_i hji
      obtain ⟨hme, hpc⟩ := h.held j rf r hr hj
      exact ⟨hme, by rw [setDriver_drivers, if_neg hji]; exact hpc⟩

/-- A driver moves on; one that holds the persister of an instance may not leave it. -/
theorem PersistInv.drive (h : PersistInv s) {t : System E V T} {i : Nat} {d : Driver}
    (hp : t.persisters = s.persisters) (hi : t.instances = s.instances) (hs : t.saved = s.saved)
    (hdr : t.drivers = Function.update s.drivers i d)
    (hd : s.saved i ≠ none → (s.drivers i).pc.beforeCopy = true → d.pc.beforeCopy = true) :
    PersistInv t := by
  refine h.move (fun p hex => by rw [hp]; exact hex) hi hs fun j hj hpc => ?_
  rw [hdr, Function.update_apply]
  split
  · rename_i hji
    rw [hji] at hj hpc
    exact hd hj hpc
  · exact hpc

/-- A new instance gets `cfg.saved[i]`, which no other instance has. -/
theorem PersistInv.make (h : PersistInv s) {i fresh p : Nat} {d : Driver}
    (hp : (s.drivers i).pc.beforeCopy = false) (hsaved : s.saved i = some p)
    (hd : d.pc.beforeCopy = true) :
    PersistInv
      ({ s with instances := Function.update s.instances fresh (some ⟨i, p⟩) }.setDriver i d) := by
  have hfree : ∀ rf r, s.instances rf = some r → r.persister ≠ p := by
    rintro rf r hr rfl
    have hpc := (h.held i rf r hr hsaved).2
    rw [hp] at hpc
    cases hpc
  refine ⟨h.saved_exists, fun rf r hr => ?_, h.saved_inj, fun rf rf' r r' hr hr' heq => ?_,
    fun j rf r hr hj => ?_⟩
  · simp only [System.setDriver, Function.update_apply] at hr
    split at hr
    · cases hr
      exact h.saved_exists i p hsaved
    · exact h.inst_exists rf r hr
  · simp only [System.setDriver, Function.update_apply] at hr hr'
    split at hr
    · cases hr
      split at hr'
      · rename_i h₁ h₂
        rw [h₁, h₂]
      · exact absurd heq.symm (hfree rf' r' hr')
    · split at hr'
      · cases hr'
        exact absurd heq (hfree rf r hr)
      · exact h.inst_inj rf rf' r r' hr hr' heq
  · rw [setDriver_drivers]
    simp only [System.setDriver, Function.update_apply] at hr
    split at hr
    · cases hr
      have hji : j = i := h.saved_inj j i p hj hsaved
      rw [if_pos hji]
      exact ⟨hji.symm, hd⟩
    · obtain ⟨hme, hpc⟩ := h.held j rf r hr hj
      refine ⟨hme, ?_⟩
      split
      · exact hd
      · exact hpc

theorem PersistInv.effect (h : PersistInv s) (he : Effect n s e s') : PersistInv s' := by
  -- a driver past the copy holds nothing that it could leave
  have hpast : ∀ {i pc d}, (s.drivers i).pc = pc → pc.beforeCopy = false → s.saved i ≠ none →
      (s.drivers i).pc.beforeCopy = true → (d : Driver).pc.beforeCopy = true := by
    intro i pc d hp hb _ hpc
    rw [hp, hb] at hpc
    cases hpc
  cases he with
  | rpc => exact h
  | @save rf x c r hr hc =>
    refine h.move (fun p hp => ?_) rfl rfl fun _ _ hpc => hpc
    simp only [Function.update_apply]
    split
    · rfl
    · exact hp
  | @begin i start hp =>
    refine h.drive rfl rfl rfl rfl fun _ _ => ?_
    show (crash1 n).beforeCopy = true
    unfold crash1
    split <;> rfl
  | endnames hp | clearRaft hp | readRaftState hp | readSnapshot hp =>
    exact h.drive rfl rfl rfl rfl (hpast hp rfl)
  | @quiet i pc fresh hp hq =>
    refine h.drive rfl rfl rfl rfl fun hsaved hpc => Pc.beforeCopy_next hpc ?_ _
    intro hcopy
    rcases hq with hq | ⟨-, hnone⟩
    · rw [← hp, hcopy] at hq
      cases hq
    · obtain ⟨p, hsp⟩ := Option.ne_none_iff_exists'.mp hsaved
      have := h.saved_exists i p hsp
      simp [System.savedContent, hsp] at hnone
      rw [hnone] at this
      cases this
  | copySaved hp hx hf | renew hp hx hf => exact h.setSaved hf _ _
  | copyOrMake hp hf hx => exact h.setSaved hf _ _
  | setRaft hp | makeServer hp | addService hp =>
    exact h.drive rfl rfl rfl rfl fun _ hpc => Pc.beforeCopy_next hpc (by simp [hp]) _
  | make hp hsaved hf =>
    exact h.make (by rw [hp]; rfl) hsaved (by simp [Driver.advance, hp, Pc.next, Pc.beforeCopy])

/-! ## The content of a persister -/

def Event.saves (rf : Nat) : Event E V T → Persister → Persister
  | .save rf' y _, x => if rf' = rf then y else x
  | _, x => x

/-- The last save of `rf` in a trace, or `x` if there is none. -/
def lastSave (rf : Nat) (x : Persister) (ls : List (Event E V T)) : Persister :=
  ls.foldl (fun x e => e.saves rf x) x

theorem PersistInv.content (h : PersistInv s) (he : Effect n s e s') {rf : Nat} {r : Instance}
    {x : Persister} (hr : s.instances rf = some r) (hx : s.persisters r.persister = some x) :
    s'.instances rf = some r ∧ s'.persisters r.persister = some (e.saves rf x) := by
  have hset : ∀ i {fresh} y, s.persisters fresh = none →
      (s.setSaved i fresh y).persisters r.persister = some x := by
    intro i fresh y hf
    rw [setSaved_persisters, if_neg]
    · exact hx
    · intro heq
      rw [heq, hf] at hx
      cases hx
  cases he with
  | @save rf' y c r' hr' hc =>
    refine ⟨hr, ?_⟩
    simp only [Function.update_apply, Event.saves]
    by_cases heq : rf' = rf
    · subst heq
      rw [hr] at hr'
      cases hr'
      rw [if_pos rfl, if_pos rfl]
    · rw [if_neg heq, if_neg]
      · exact hx
      · intro hp
        exact heq (h.inst_inj _ _ _ _ hr' hr hp.symm)
  | @copySaved i fresh y hp hy hf => exact ⟨hr, hset i y hf⟩
  | @renew i fresh hp hy hf => exact ⟨hr, hset i ⟨(s.drivers i).raftlog, (s.drivers i).snapshot⟩ hf⟩
  | @copyOrMake i fresh y hp hf hy => exact ⟨hr, hset i y hf⟩
  | @make i fresh p hp hs hf =>
    refine ⟨?_, hx⟩
    simp only [System.setDriver, Function.update_apply]
    rw [if_neg]
    · exact hr
    · intro heq
      rw [heq, hf] at hr
      cases hr
  | _ => exact ⟨hr, hx⟩

/-- The instance `rf` of server `i` has the persister that `crash1` will copy. -/
structure Owned (i rf : Nat) (r : Instance) (s : System E V T) : Prop where
  inst : s.instances rf = some r
  saved : s.saved i = some r.persister
  pc : (s.drivers i).pc.beforeCopy = true

theorem Owned.effect {i rf : Nat} {r : Instance} (h : Owned i rf r s) (hinv : PersistInv s)
    (he : Effect n s e s') (hcopy : ∀ fresh, e ≠ .op i .copySaved fresh) : Owned i rf r s' := by
  obtain ⟨hr, hsaved, hpc⟩ := h
  have hother : ∀ (t : System E V T) {j} {d : Driver}, t.drivers = s.drivers →
    (j = i → d.pc.beforeCopy = true) →
      ((t.setDriver j d).drivers i).pc.beforeCopy = true := by
    intro t j d ht hd
    rw [setDriver_drivers]
    split
    · rename_i hij
      exact hd hij.symm
    · rw [ht]
      exact hpc
  have hset : ∀ {j fresh} (y : Persister) (d : Driver), j ≠ i →
      Owned i rf r ((s.setSaved j fresh y).setDriver j d) := by
    intro j fresh y d hji
    refine ⟨hr, ?_, hother (s.setSaved j fresh y) rfl fun hij => absurd hij hji⟩
    change (s.setSaved j fresh y).saved i = _
    rw [setSaved_saved, if_neg hji.symm]
    exact hsaved
  have hne : ∀ {j pc}, (s.drivers j).pc = pc → pc.beforeCopy = false → j ≠ i := by
    rintro j pc hp hb rfl
    rw [hp, hb] at hpc
    cases hpc
  obtain ⟨x, hx⟩ := Option.isSome_iff_exists.mp (hinv.saved_exists i _ hsaved)
  have hinst := (hinv.content he hr hx).1
  cases he with
  | rpc hl => exact ⟨hr, hsaved, hpc⟩
  | save hr' hc => exact ⟨hr, hsaved, hpc⟩
  | @begin j start hp =>
    refine ⟨hr, hsaved, hother s rfl fun _ => ?_⟩
    show (crash1 n).beforeCopy = true
    unfold crash1
    split <;> rfl
  | @quiet j pc fresh hp hq =>
    refine ⟨hr, hsaved, hother s rfl ?_⟩
    rintro rfl
    refine Pc.beforeCopy_next hpc ?_ _
    intro hcs
    exact hcopy fresh (by rw [← hp, hcs])
  | @copySaved j fresh y hp hy hf =>
    refine hset _ _ ?_
    rintro rfl
    exact hcopy fresh rfl
  | renew hp hy hf => exact hset _ _ (hne hp rfl)
  | copyOrMake hp hf hy => exact hset _ _ (hne hp rfl)
  | endnames hp =>
    exact ⟨hr, hsaved, hother { s with endnames := _ } rfl fun hj => absurd hj (hne hp rfl)⟩
  | clearRaft hp =>
    exact ⟨hr, hsaved, hother { s with rafts := _ } rfl fun hj => absurd hj (hne hp rfl)⟩
  | readRaftState hp | readSnapshot hp =>
    exact ⟨hr, hsaved, hother s rfl fun hj => absurd hj (hne hp rfl)⟩
  | make hp hs hf =>
    exact ⟨hinst, hsaved, hother { s with instances := _ } rfl fun hj => absurd hj (hne hp rfl)⟩
  | setRaft hp =>
    refine ⟨hr, hsaved, hother { s with rafts := _ } rfl fun _ => ?_⟩
    rw [Driver.advance, hp]
    rfl
  | makeServer hp =>
    refine ⟨hr, hsaved, hother s rfl fun _ => ?_⟩
    rw [Driver.advance, hp]
    rfl
  | addService hp ho =>
    refine ⟨hr, hsaved, hother { s with receiver := _ } rfl fun _ => ?_⟩
    rw [Driver.advance, hp]
    rfl

/-- What `crash1` has read of a persister with content `x`, between the copy and the
next instance. -/
def Driver.carries (x : Persister) (d : Driver) : Prop :=
  match d.pc with
  | .setRaft | .makeServer | .addService | .addServer => False
  | .readSnapshot => d.raftlog = x.raftstate
  | .renew => d.raftlog = x.raftstate ∧ d.snapshot = x.snapshot
  | _ => True

structure Held (i : Nat) (x : Persister) (s : System E V T) : Prop where
  saved : ∃ p, s.saved i = some p ∧ s.persisters p = some x ∧ ∀ rf r, s.instances rf = some r →
    r.persister ≠ p
  driver : (s.drivers i).carries x

theorem Held.content {i : Nat} {x : Persister} (h : Held i x s) : s.savedContent i = some x := by
  obtain ⟨p, hp, hx, -⟩ := h.saved
  simp [System.savedContent, hp, hx]

theorem PersistInv.fresh_held (h : PersistInv s) {i fresh : Nat} {x : Persister} {d : Driver}
    (hf : s.persisters fresh = none) (hd : d.carries x) :
    Held i x ((s.setSaved i fresh x).setDriver i d) := by
  refine ⟨⟨fresh, ?_, ?_, fun rf r hr heq => ?_⟩, ?_⟩
  · change (s.setSaved i fresh x).saved i = _
    rw [setSaved_saved, if_pos rfl]
  · change (s.setSaved i fresh x).persisters fresh = _
    rw [setSaved_persisters, if_pos rfl]
  · have hex := h.inst_exists rf r hr
    rw [heq, hf] at hex
    cases hex
  · rw [setDriver_drivers, if_pos rfl]
    exact hd

theorem carries_quiet {d : Driver} {x : Persister} (hc : d.carries x) (hq : d.pc.quiet = true) :
    (d.advance n).carries x := by
  unfold Driver.carries Driver.advance at *
  cases hp : d.pc with
  | disableOut j | disableIn j | connect j => by_cases hj : j + 1 < n <;> simp [Pc.next, hj]
  | deleteServer | makeEnd => trivial
  | addServer =>
    rw [hp] at hc
    exact hc.elim
  | _ =>
    rw [hp] at hq
    cases hq

theorem Held.drive {i : Nat} {x : Persister} (h : Held i x s) {t : System E V T} {j : Nat}
    {d : Driver} (hp : t.persisters = s.persisters) (hi : t.instances = s.instances)
    (hs : t.saved = s.saved) (hd : t.drivers = Function.update s.drivers j d)
    (hj : j = i → d.carries x) : Held i x t := by
  obtain ⟨hsaved, hc⟩ := h
  rw [← hp, ← hi, ← hs] at hsaved
  refine ⟨hsaved, ?_⟩
  rw [hd, Function.update_apply]
  split
  · rename_i hij
    exact hj hij.symm
  · exact hc

theorem Held.set {i : Nat} {x : Persister} (h : Held i x s) (hinv : PersistInv s) {j fresh : Nat}
    {y : Persister} {d : Driver} (hf : s.persisters fresh = none)
    (hj : j = i → y = x ∧ d.carries x) :
    Held i x ((s.setSaved j fresh y).setDriver j d) := by
  by_cases hji : j = i
  · obtain ⟨rfl, hc⟩ := hj hji
    subst hji
    exact hinv.fresh_held hf hc
  · obtain ⟨⟨p, hsaved, hp, hfree⟩, hd⟩ := h
    refine ⟨⟨p, ?_, ?_, hfree⟩, ?_⟩
    · change (s.setSaved j fresh y).saved i = _
      rw [setSaved_saved, if_neg (Ne.symm hji)]
      exact hsaved
    · change (s.setSaved j fresh y).persisters p = _
      rw [setSaved_persisters, if_neg]
      · exact hp
      · intro heq
        rw [heq, hf] at hp
        cases hp
    · rw [setDriver_drivers, if_neg (Ne.symm hji)]
      exact hd

/-- Until the next instance of `i` is made, its saved content stays. -/
theorem Held.effect {i : Nat} {x : Persister} (h : Held i x s) (hinv : PersistInv s)
    (he : Effect n s e s') (hmake : ∀ fresh, e ≠ .op i .make fresh) : Held i x s' := by
  have hx := h.content
  have hat : ∀ {pc}, (s.drivers i).pc = pc →
      ({ s.drivers i with pc := pc } : Driver).carries x := by
    intro pc hpc
    rw [← hpc]
    exact h.driver
  cases he with
  | rpc hl => exact h
  | @save rf y c r hr hc =>
    obtain ⟨⟨p, hsaved, hp, hfree⟩, hd⟩ := h
    refine ⟨⟨p, hsaved, ?_, hfree⟩, hd⟩
    simp only [Function.update_apply]
    rw [if_neg (hfree rf r hr).symm]
    exact hp
  | @begin j start hp =>
    refine h.drive rfl rfl rfl rfl fun _ => ?_
    unfold crash1
    split <;> trivial
  | @endnames j names hp =>
    refine h.drive rfl rfl rfl rfl fun _ => ?_
    by_cases hn : n = 0 <;> simp [Driver.advance, Driver.carries, hp, Pc.next, hn]
  | @quiet j pc fresh hp hq =>
    refine h.drive rfl rfl rfl rfl fun hj => ?_
    subst hj
    rcases hq with hq | ⟨-, hnone⟩
    · exact carries_quiet h.driver (by rw [hp]; exact hq)
    · rw [hx] at hnone
      cases hnone
  | @copySaved j fresh y hp hy hf =>
    refine h.set hinv hf fun hj => ?_
    subst hj
    rw [hx] at hy
    cases hy
    exact ⟨rfl, by simp [Driver.advance, Driver.carries, hp, Pc.next]⟩
  | @clearRaft j fresh hp =>
    refine h.drive rfl rfl rfl rfl fun _ => ?_
    simp [Driver.advance, Driver.carries, hp, Pc.next]
  | @readRaftState j fresh y hp hy =>
    refine h.drive rfl rfl rfl rfl fun hj => ?_
    subst hj
    rw [hx] at hy
    cases hy
    simp [Driver.advance, Driver.carries, hp, Pc.next]
  | @readSnapshot j fresh y hp hy =>
    refine h.drive rfl rfl rfl rfl fun hj => ?_
    subst hj
    rw [hx] at hy
    cases hy
    have hlog : (s.drivers j).raftlog = x.raftstate := hat hp
    simp [Driver.advance, Driver.carries, hp, Pc.next, hlog]
  | @renew j fresh hp hy hf =>
    refine h.set hinv hf fun hj => ?_
    subst hj
    obtain ⟨hlog, hsnap⟩ : (s.drivers j).raftlog = x.raftstate ∧
      (s.drivers j).snapshot = x.snapshot := hat hp
    refine ⟨by rw [hlog, hsnap], ?_⟩
    by_cases hst : (s.drivers j).start <;> simp [Driver.advance, Driver.carries, hp, Pc.next, hst]
  | @copyOrMake j fresh y hp hf hy =>
    refine h.set hinv hf fun hj => ?_
    subst hj
    rw [hx] at hy
    rcases hy with hy | ⟨hy, -⟩
    · cases hy
      exact ⟨rfl, by simp [Driver.advance, Driver.carries, hp, Pc.next]⟩
    · cases hy
  | @make j fresh q hp hq hf =>
    have hji : j ≠ i := by
      intro hji
      rw [hji] at hmake
      exact hmake fresh rfl
    obtain ⟨⟨p, hsaved, hpx, hfree⟩, hd⟩ := h
    refine ⟨⟨p, hsaved, hpx, fun rf r hr => ?_⟩, ?_⟩
    · simp only [System.setDriver, Function.update_apply] at hr
      split at hr
      · cases hr
        intro hqp
        cases hqp
        exact hji (hinv.saved_inj _ _ _ hq hsaved)
      · exact hfree rf r hr
    · rw [setDriver_drivers, if_neg (Ne.symm hji)]
      exact hd
  | @setRaft j fresh hp =>
    refine h.drive rfl rfl rfl rfl fun hj => ?_
    subst hj
    exact (hat hp).elim
  | @makeServer j fresh hp =>
    refine h.drive rfl rfl rfl rfl fun hj => ?_
    subst hj
    exact (hat hp).elim
  | @addService j fresh o hp ho =>
    refine h.drive rfl rfl rfl rfl fun hj => ?_
    subst hj
    exact (hat hp).elim

end

end Csc412.Raft
