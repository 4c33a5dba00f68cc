import Csc412.Labrpc.NetworkSound
import Csc412.Raft.ServeSound

/-!
# Nothing acknowledged is lost, nothing late appears

A reply reaches `Call` only if the server was still registered after its handler had
returned. `crash1` removes the server before it copies the persister, so what such a
handler saved is in the copy. From the copy on the old instance writes to a persister
that nobody reads any more.
-/

namespace Csc412.Raft

open Lib Labrpc

section
variable {E V T : Type} {n : Nat} {s s' : System E V T} {e : Event E V T}

/-! ## Steps of the system -/

theorem effect_net (he : Effect n s e s') : s'.net = s.net := by
  cases he <;> rfl

variable [DecidableEq E] [DecidableEq T] {G : Gob V T} {svc : Service T}

def Moves (G : Gob V T) (n : Nat) (svc : Service T) (s : System E V T) (e : Event E V T)
    (s' : System E V T) : Prop :=
  s.step G n svc e = some s'

theorem step_spec (h : Moves G n svc s e s') :
    ∃ s₁, Effect n s e s₁ ∧ s' = { s₁ with net := s'.net } ∧
    (s.netLabel svc e = none ∧ s'.net = s.net ∨ ∃ l, s.netLabel svc e = some l ∧
        Steps G s.net l s'.net) := by
  unfold Moves System.step at h
  split at h
  · cases h
  · split at h
    · rename_i hl
      have he := effect_spec h
      exact ⟨s', he, rfl, .inl ⟨hl, effect_net he⟩⟩
    · rename_i l hl
      split at h
      · cases h
      · rename_i net hnet
        obtain ⟨s₁, he, rfl⟩ := Option.map_eq_some_iff.mp h
        exact ⟨s₁, effect_spec he, rfl, .inr ⟨l, hl, hnet⟩⟩

theorem makeServer_fresh {net net' : Network E Nat V T} {o : Nat}
    (h : Steps G net (.makeServer o) net') :
    net.objects o = none ∧ (net'.objects o).isSome := by
  unfold Steps Labrpc.step at h
  split at h
  · cases h
  · simp only at h
    split at h <;> cases h
    rename_i ho
    refine ⟨by simpa using ho, ?_⟩
    simp [Network.makeServer]

theorem step_serves (h : Moves G n svc s e s') : Serves s e s' := by
  obtain ⟨s₁, he, -, hnet⟩ := step_spec h
  rcases hnet with ⟨hl, hnet⟩ | ⟨l, hl, hstep⟩
  · refine ⟨fun o ho => by rw [hnet]; exact ho, ?_, fun i o he' => ?_⟩
    · rw [hnet]
      unfold Event.servers
      split
      · cases hl
      · rename_i i fresh
        have hsrv : (s.drivers i).srv = none := by simpa [System.netLabel] using hl
        rw [hsrv]
      · rfl
    · subst he'
      cases hl
  · have hserver := step_server hstep
    refine ⟨hserver.exist, ?_, fun i o he' => ?_⟩
    · rw [hserver.servers]
      cases e with
      | rpc l' =>
        cases hl
        cases he with
        | rpc hext => cases l <;> first | rfl | cases hext
      | op i pc fresh =>
        cases pc with
        | deleteServer =>
          cases hl
          rfl
        | addServer =>
          obtain ⟨o, ho, rfl⟩ := Option.map_eq_some_iff.mp hl
          simp [Event.servers, Label.servers, ho]
        | disableOut | disableIn | makeEnd | connect | addService =>
          obtain ⟨_, -, rfl⟩ := Option.map_eq_some_iff.mp hl
          rfl
        | makeServer =>
          cases hl
          rfl
        | _ => cases hl
      | _ => cases hl
    · subst he'
      cases hl
      exact makeServer_fresh hstep

structure SysInv (s : System E V T) : Prop where
  persist : PersistInv s
  serve : ServeInv s

omit [DecidableEq E] [DecidableEq T] in
theorem PersistInv.withNet (h : PersistInv s) (net : Network E Nat V T) :
    PersistInv { s with net := net } :=
  ⟨h.saved_exists, h.inst_exists, h.saved_inj, h.inst_inj, h.held⟩

theorem step_drives (h : Moves G n svc s e s') : Drives n s e s' := by
  obtain ⟨s₁, he, hs', -⟩ := step_spec h
  rw [hs']
  exact drives he _

theorem sysInv_step (h : SysInv s) (hs : Moves G n svc s e s') : SysInv s' := by
  obtain ⟨s₁, he, hs', -⟩ := step_spec hs
  refine ⟨?_, h.serve.step (step_drives hs) (step_serves hs)⟩
  rw [hs']
  exact (h.persist.effect he).withNet _

omit [DecidableEq E] [DecidableEq T] in
theorem sysInv_makeConfig : SysInv (makeConfig : System E V T) := by
  refine ⟨⟨?_, ?_, ?_, ?_, ?_⟩, ⟨?_, ?_, ?_, ?_, ?_, ?_⟩⟩ <;> intros <;>
    simp_all [makeConfig, makeNetwork, Pc.made]

/-! ## Along a run -/

variable {ls : List (Event E V T)} {i rf : Nat} {r : Instance} {x : Persister}

theorem sysInv_run (hr : Run (Moves G n svc) makeConfig ls s) : SysInv s :=
  Run.invariant (I := SysInv) sysInv_step sysInv_makeConfig hr

def System.contentOf (s : System E V T) (rf : Nat) : Option Persister :=
  (s.instances rf).bind fun r => s.persisters r.persister

theorem content_run (h : SysInv s) (hr : Run (Moves G n svc) s ls s') (hi : s.instances rf = some r)
    (hx : s.persisters r.persister = some x) :
    s'.instances rf = some r ∧ s'.persisters r.persister = some (lastSave rf x ls) := by
  induction hr with
  | nil => exact ⟨hi, hx⟩
  | @snoc ls t e u hr hs ih =>
    obtain ⟨s₁, he, hu, -⟩ := step_spec hs
    have hinv : SysInv t := hr.invariant (I := SysInv) sysInv_step h
    have := hinv.persist.content he ih.1 ih.2
    rw [hu, lastSave, List.foldl_append]
    exact this

theorem owned_run (h : SysInv s) (hr : Run (Moves G n svc) s ls s') (ho : Owned i rf r s)
    (hl : ∀ fresh, .op i .copySaved fresh ∉ ls) : Owned i rf r s' := by
  induction hr with
  | nil => exact ho
  | @snoc ls t e u hr hs ih =>
    obtain ⟨s₁, he, hu, -⟩ := step_spec hs
    have hinv : SysInv t := hr.invariant (I := SysInv) sysInv_step h
    have ht := ih fun f hf => hl f (by simp [hf])
    obtain ⟨h₁, h₂, h₃⟩ := ht.effect hinv.persist he fun f hf => hl f (by simp [hf])
    rw [hu]
    exact ⟨h₁, h₂, h₃⟩

theorem held_run (h : SysInv s) (hr : Run (Moves G n svc) s ls s') (hh : Held i x s)
    (hl : ∀ fresh, .op i .make fresh ∉ ls) : Held i x s' := by
  induction hr with
  | nil => exact hh
  | @snoc ls t e u hr hs ih =>
    obtain ⟨s₁, he, hu, -⟩ := step_spec hs
    have hinv : SysInv t := hr.invariant (I := SysInv) sysInv_step h
    have ht := ih fun f hf => hl f (by simp [hf])
    obtain ⟨h₁, h₂⟩ := ht.effect hinv.persist he fun f hf => hl f (by simp [hf])
    rw [hu]
    exact ⟨h₁, h₂⟩

theorem retired_run (h : SysInv s) (hr : Run (Moves G n svc) s ls s') (hret : Retired rf s) :
    Retired rf s' := by
  induction hr with
  | nil => exact hret
  | snoc hr hs ih =>
    have hinv := hr.invariant (I := SysInv) sysInv_step h
    exact ih.step hinv.serve (step_drives hs) (step_serves hs)

theorem instances_run (hr : Run (Moves G n svc) s ls s') (hi : s.instances rf = some r) :
    s'.instances rf = some r := by
  induction hr with
  | nil => exact hi
  | snoc _ hs ih => exact (step_drives hs).instances ih

theorem receiver_run (h : SysInv s) (hr : Run (Moves G n svc) s ls s') {o : Nat}
    (ho : s.receiver o = some rf) :
    s'.receiver o = some rf := by
  induction hr with
  | nil => exact ho
  | snoc hr hs ih =>
    have hinv := hr.invariant (I := SysInv) sysInv_step h
    exact (step_drives hs).receiver hinv.serve ih

/-! ## From one instance to the next -/

theorem make_spec (h : SysInv s) (hs : Moves G n svc s (.op i .make rf) s') :
    (s.drivers i).pc = .make ∧ s.instances rf = none ∧ ∃ p x, s.saved i = some p ∧
    s.persisters p = some x ∧
      Owned i rf ⟨i, p⟩ s' ∧ s'.persisters p = some x := by
  obtain ⟨s₁, he, hs', -⟩ := step_spec hs
  cases he with
  | quiet hp hq => simp [Pc.quiet, Pc.reads] at hq
  | @make _ _ p hp hsaved hf =>
    obtain ⟨x, hx⟩ := Option.isSome_iff_exists.mp (h.persist.saved_exists i p hsaved)
    refine ⟨hp, hf, p, x, hsaved, hx, ?_, by rw [hs']; exact hx⟩
    rw [hs']
    refine ⟨?_, hsaved, ?_⟩
    · simp [System.setDriver]
    · simp [System.setDriver, Driver.advance, hp, Pc.next, Pc.beforeCopy]

theorem copy_spec (h : SysInv s) (ho : Owned i rf r s) (hme : r.me = i)
    (hx : s.persisters r.persister = some x) {fresh : Nat}
    (hs : Moves G n svc s (.op i .copySaved fresh) s') : Held i x s' ∧ Retired rf s' := by
  have hcontent : s.savedContent i = some x := by simp [System.savedContent, ho.saved, hx]
  have hpc : (s.drivers i).pc = .copySaved := by
    obtain ⟨s₁, he, -⟩ := step_spec hs
    cases he with
    | quiet hp hq => exact hp
    | copySaved hp hx hf => exact hp
  refine ⟨?_, (h.serve.retired hpc ho.inst hme).step h.serve (step_drives hs) (step_serves hs)⟩
  obtain ⟨s₁, he, hs', -⟩ := step_spec hs
  rw [hs']
  cases he with
  | quiet hp hq =>
    rcases hq with hq | ⟨-, hq⟩
    · cases hq
    · rw [hcontent] at hq
      cases hq
  | @copySaved _ _ y hp hy hf =>
    rw [hcontent] at hy
    cases hy
    obtain ⟨h₁, h₂⟩ := h.persist.fresh_held (i := i) (x := x) (d := (s.drivers i).advance n) hf
      (by simp [Driver.advance, Driver.carries, hp, Pc.next])
    exact ⟨h₁, h₂⟩

theorem moves_functional {u u' : System E V T} (h : Run (Moves G n svc) s ls u)
    (h' : Run (Moves G n svc) s ls u') : u = u' :=
  Run.functional (fun _ _ _ _ h₁ h₂ => Option.some.inj (h₁.symm.trans h₂)) h h'

/-! ## Saves of a call that returned -/

/-- The steps of the system, with what each of them asks of the network. -/
def NetMoves (G : Gob V T) (n : Nat) (svc : Service T) (s : System E V T)
    (d : Event E V T × Option (Label E Nat V T)) (s' : System E V T) : Prop :=
  Moves G n svc s d.1 s' ∧ d.2 = s.netLabel svc d.1

variable {ds : List (Event E V T × Option (Label E Nat V T))}

theorem moves_of_netMoves (h : Run (NetMoves G n svc) s ds s') :
    Run (Moves G n svc) s (ds.map Prod.fst) s' := by
  rw [← List.filterMap_eq_map]
  exact h.project id (some ∘ Prod.fst) fun hs => .inr ⟨_, rfl, hs.1⟩

theorem steps_of_netMoves (h : Run (NetMoves G n svc) s ds s') :
    Run (Steps G) s.net (ds.filterMap Prod.snd) s'.net := by
  refine h.project System.net Prod.snd fun hs => ?_
  obtain ⟨hs, hl⟩ := hs
  obtain ⟨-, -, -, hnet⟩ := step_spec hs
  rw [hl]
  exact hnet

theorem save_instance {c : Option Nat} (hs : Moves G n svc s (.save rf x c) s') :
    s.instances rf ≠ none := by
  obtain ⟨s₁, he, -⟩ := step_spec hs
  cases he with
  | save hi hc => simp [hi]

theorem save_spec (hr : Run (NetMoves G n svc) makeConfig ds s) {c : Nat}
    (hs : Moves G n svc s (.save rf x (some c)) s') :
    ∃ o, s.receiver o = some rf ∧ dispatches c (ds.filterMap Prod.snd) = [o] ∧
    returns c (ds.filterMap Prod.snd) = [] := by
  obtain ⟨s₁, he, -⟩ := step_spec hs
  cases he with
  | save hi hc =>
    have hh := hc c rfl
    unfold System.handles at hh
    split at hh
    · rename_i k hk
      have hinv := ((netInv_run (steps_of_netMoves hr)).calls c k hk).handler
      split at hh
      · rename_i o _ _ hrun
        rw [hrun] at hinv
        exact ⟨o, by simpa using hh, hinv.1, hinv.2⟩
      · cases hh
    · cases hh

theorem alive_spec (hr : Run (NetMoves G n svc) makeConfig ds s) {c : Nat} {k : Call E Nat V T}
    (hk : s.net.calls c = some k) (hc : k.client = .returned true) :
    ∃ d₁ d₂ w i o v, ds = d₁ ++ d₂ ∧
      Run (NetMoves G n svc) makeConfig d₁ w ∧ w.net.servers i = some o ∧
      dispatches c (ds.filterMap Prod.snd) = [o] ∧ returns c (d₁.filterMap Prod.snd) = [v] := by
  have hnet := steps_of_netMoves hr
  obtain ⟨t, v, -, -, hd, -, -, -, -, -, l₁, u, ⟨l₂, hpre⟩, hu, hv, -, hreg⟩ :=
    ((netInv_run hnet).calls c k hk).succeeded hc
  obtain ⟨d₁, d₂, rfl, rfl, -⟩ := List.filterMap_eq_append_iff.mp hpre.symm
  obtain ⟨w, hw, -⟩ := hr.split
  obtain rfl : w.net = u := steps_functional (steps_of_netMoves hw) hu
  exact ⟨d₁, d₂, w, t.servername, t.server, v, rfl, hw, hreg, hd, hv⟩

/-- After a save of a call that returned true there is a moment at which its instance is
still registered. -/
theorem acked_save {b d : List (Event E V T)} {c : Nat} {k : Call E Nat V T}
    (hr : Run (Moves G n svc) makeConfig (b ++ .save rf x (some c) :: d) s)
    (hk : s.net.calls c = some k) (hc : k.client = .returned true) : ∃ q z w, d = q ++ z ∧
      Run (Moves G n svc) makeConfig (b ++ .save rf x (some c) :: q) w ∧ ¬ Retired rf w := by
  obtain ⟨ds, hds, hnr⟩ := hr.decorate (System.netLabel svc)
  obtain ⟨db, dd, rfl, rfl, hdd⟩ := List.map_eq_append_iff.mp hds
  obtain ⟨⟨e, l⟩, dd, rfl, rfl, rfl⟩ := List.map_eq_cons_iff.mp hdd
  obtain ⟨u, hu, hrest⟩ := hnr.split
  obtain ⟨u', hsave, -⟩ := hrest.cons_inv
  obtain ⟨o, ho, hasked, hleft⟩ := save_spec hu hsave.1
  obtain ⟨d₁, d₂, w, i, o', v, hsplit, hw, hreg, hasked', hleft'⟩ := alive_spec hnr hk hc
  rcases List.append_eq_append_iff.mp hsplit with ⟨as, rfl, has⟩ | ⟨bs, rfl, hbs⟩
  · cases as with
    | nil =>
      rw [List.append_nil, hleft] at hleft'
      cases hleft'
    | cons a q =>
      obtain ⟨rfl, rfl⟩ := List.cons.inj has
      have hoo : o = o' := by
        rw [List.filterMap_append, dispatches_append, hasked] at hasked'
        exact (List.cons.inj hasked').1
      obtain ⟨u', hu', hq⟩ := hw.split
      obtain rfl : u' = u := moves_functional (moves_of_netMoves hu') (moves_of_netMoves hu)
      have hrec := receiver_run (sysInv_run (moves_of_netMoves hu)) (moves_of_netMoves hq) ho
      refine ⟨q.map Prod.fst, d₂.map Prod.fst, w, by simp, ?_, fun hret => ?_⟩
      · simpa using moves_of_netMoves hw
      · exact hret.servers i o' hreg (hoo ▸ hrec)
  · -- the handler would have returned before it saved
    rw [List.filterMap_append, returns_append, hleft'] at hleft
    cases hleft

/-! ## What the next instance gets -/

def Event.copies (i : Nat) : Event E V T → Bool
  | .op j .copySaved _ => j == i
  | _ => false

omit [DecidableEq E] [DecidableEq T] in
theorem Event.copies_iff : e.copies i = true ↔ ∃ fresh, e = .op i .copySaved fresh := by
  unfold Event.copies
  split
  · simp
  · rename_i h
    constructor
    · intro hf
      cases hf
    · rintro ⟨fresh, rfl⟩
      exact absurd rfl (h i fresh)

omit [DecidableEq E] [DecidableEq T] in
theorem first_copy {m : List (Event E V T)} : (∀ f, .op i .copySaved f ∉ m) ∨
    ∃ m₁ f m₂, m = m₁ ++ .op i .copySaved f :: m₂ ∧ ∀ f', .op i .copySaved f' ∉ m₁ := by
  cases hf : m.find? (Event.copies i) with
  | none =>
    refine .inl fun f hmem => ?_
    exact List.find?_eq_none.mp hf _ hmem (Event.copies_iff.mpr ⟨f, rfl⟩)
  | some e =>
    obtain ⟨he, m₁, m₂, rfl, hm₁⟩ := List.find?_eq_some_iff_append.mp hf
    obtain ⟨f, rfl⟩ := Event.copies_iff.mp he
    refine .inr ⟨m₁, f, m₂, rfl, fun f' hmem => ?_⟩
    have hnot := hm₁ _ hmem
    rw [Event.copies_iff.mpr ⟨f', rfl⟩] at hnot
    cases hnot

/-- What lies between one instance of server `i` and the next: its persister is copied
once it is gone, and this copy is what the next one starts with. -/
structure Handed (G : Gob V T) (n : Nat) (svc : Service T) (i rf : Nat) (m₁ : List (Event E V T))
    (f : Nat) (y : Persister) (s s' : System E V T) : Prop where
  first : ∀ f', .op i .copySaved f' ∉ m₁
  copied : ∃ t t' x, Run (Moves G n svc) s m₁ t ∧ Moves G n svc t (.op i .copySaved f) t' ∧
    t.contentOf rf = some y ∧ t'.savedContent i = some y ∧ y = lastSave rf x m₁ ∧ Retired rf t'
  saved : s'.savedContent i = some y

theorem handed_run {s₀ : System E V T} {m : List (Event E V T)} {rf' : Nat} {s'' : System E V T}
    (h : SysInv s₀) (hs : Moves G n svc s₀ (.op i .make rf) s) (hr : Run (Moves G n svc) s m s')
    (hs' : Moves G n svc s' (.op i .make rf') s'') (hm : ∀ f, .op i .make f ∉ m) :
    ∃ m₁ f m₂ y, m = m₁ ++ .op i .copySaved f :: m₂ ∧ Handed G n svc i rf m₁ f y s s' := by
  have hinv : SysInv s := sysInv_step h hs
  obtain ⟨-, -, p, x, -, -, ho, hx⟩ := make_spec h hs
  have hpc := (make_spec (hr.invariant (I := SysInv) sysInv_step hinv) hs').1
  rcases first_copy (i := i) (m := m) with hno | ⟨m₁, f, m₂, rfl, hfirst⟩
  · -- without a copy the old instance would still own the persister
    have hown := (owned_run hinv hr ho hno).pc
    rw [hpc] at hown
    cases hown
  · obtain ⟨t, ht, hrest⟩ := hr.split
    obtain ⟨t', hcopy, hrest⟩ := hrest.cons_inv
    have htinv : SysInv t := ht.invariant (I := SysInv) sysInv_step hinv
    obtain ⟨hti, htx⟩ := content_run hinv ht ho.inst hx
    obtain ⟨hheld, hret⟩ := copy_spec htinv (owned_run hinv ht ho hfirst) rfl htx hcopy
    have hheld' := held_run (sysInv_step htinv hcopy) hrest hheld
      fun f' hf' => hm f' (by simp [hf'])
    refine ⟨m₁, f, m₂, _, rfl, hfirst, ⟨t, t', x, ht, hcopy, ?_, hheld.content, rfl, hret⟩,
      hheld'.content⟩
    rw [System.contentOf, hti]
    exact htx

theorem acked_before_copy {a b d m₁ m₃ : List (Event E V T)} {c f : Nat} {k : Call E Nat V T}
    {t₀ t t' : System E V T}
    (hls : a ++ .op i .make rf :: (m₁ ++ .op i .copySaved f :: m₃) = b ++ .save rf x (some c) :: d)
    (hr : Run (Moves G n svc) makeConfig (b ++ .save rf x (some c) :: d) s)
    (ha : Run (Moves G n svc) makeConfig a t₀) (hnone : t₀.instances rf = none)
    (ht : Run (Moves G n svc) makeConfig (a ++ .op i .make rf :: m₁) t)
    (hcopy : Moves G n svc t (.op i .copySaved f) t') (hret : Retired rf t')
    (hk : s.net.calls c = some k) (hc : k.client = .returned true) :
    ∃ p q, b = a ++ .op i .make rf :: p ∧ m₁ = p ++ .save rf x (some c) :: q := by
  obtain ⟨q, z, w, rfl, hw, hreg⟩ := acked_save hr hk hc
  obtain ⟨q, hq⟩ : ∃ q, a ++ .op i .make rf :: m₁ = b ++ .save rf x (some c) :: q := by
    have hls' : (a ++ .op i .make rf :: m₁) ++ .op i .copySaved f :: m₃ =
        (b ++ .save rf x (some c) :: q) ++ z := by
      simpa using hls
    rcases List.append_eq_append_iff.mp hls' with ⟨as, has, hz⟩ | ⟨bs, hbs, -⟩
    · cases as with
      | nil => exact ⟨q, by simpa using has.symm⟩
      | cons e as =>
        obtain ⟨rfl, -⟩ := List.cons.inj hz
        rw [has] at hw
        obtain ⟨t₁, ht₁, hrest⟩ := hw.split
        obtain rfl : t₁ = t := moves_functional ht₁ ht
        obtain ⟨t₂, hcopy', hrest⟩ := hrest.cons_inv
        obtain rfl : t₂ = t' := Option.some.inj (hcopy'.symm.trans hcopy)
        exact absurd (retired_run (sysInv_step (sysInv_run ht) hcopy) hrest hret) hreg
    · exact ⟨q ++ bs, by simpa using hbs⟩
  rcases List.append_eq_append_iff.mp hq with ⟨as, rfl, has⟩ | ⟨bs, rfl, hbs⟩
  · cases as with
    | nil => cases has
    | cons e p =>
      obtain ⟨rfl, hm⟩ := List.cons.inj has
      exact ⟨p, q, rfl, hm⟩
  · -- the instance would have saved before it was made
    obtain ⟨u, hu, hbu⟩ := ha.split
    obtain ⟨u', hu', hrest⟩ := hr.split
    obtain rfl : u' = u := moves_functional hu' hu
    obtain ⟨u₁, hsave, -⟩ := hrest.cons_inv
    obtain ⟨r, hri⟩ := Option.ne_none_iff_exists'.mp (save_instance hsave)
    rw [instances_run hbu hri] at hnone
    cases hnone

omit [DecidableEq E] [DecidableEq T] in
theorem lastSave_append (x : Persister) (l₁ l₂ : List (Event E V T)) :
    lastSave rf x (l₁ ++ l₂) = lastSave rf (lastSave rf x l₁) l₂ := List.foldl_append

/-- `crash1` copies the content `y` of the persister of `rf`, and `rf'` starts with it. -/
structure Handover (G : Gob V T) (n : Nat) (svc : Service T) (i rf : Nat)
    (a m₁ : List (Event E V T)) (f : Nat)
    (m₂ : List (Event E V T)) (rf' : Nat) (z : List (Event E V T)) (y : Persister)
      (s : System E V T) : Prop where
  first : ∀ f', .op i .copySaved f' ∉ m₁
  copied : ∃ t t', Run (Moves G n svc) makeConfig (a ++ .op i .make rf :: m₁) t ∧
    Moves G n svc t (.op i .copySaved f) t' ∧ t.contentOf rf = some y ∧ t'.savedContent i = some y
  passed : ∃ u, Run (Moves G n svc) makeConfig
    (a ++ .op i .make rf :: (m₁ ++ .op i .copySaved f :: m₂)) u ∧
    u.savedContent i = some y
  -- From then on only `rf'` changes it.
  no_ghost : s.contentOf rf' = some (lastSave rf' y z)
  -- A save in the handler of a call that returned true came before the copy.
  no_loss : ∀ c k b x d, s.net.calls c = some k → k.client = .returned true →
    a ++ .op i .make rf :: (m₁ ++ .op i .copySaved f :: m₂ ++ .op i .make rf' :: z) =
      b ++ .save rf x (some c) :: d →
    ∃ p q, b = a ++ .op i .make rf :: p ∧ m₁ = p ++ .save rf x (some c) :: q ∧ y = lastSave rf x q

/-- Any two instances of a server that follow each other, whatever the calls, the handlers
and the other servers do in between. -/
theorem persister_handover {a m z : List (Event E V T)} {rf' : Nat}
    (hr : Run (Moves G n svc) makeConfig (a ++ .op i .make rf :: (m ++ .op i .make rf' :: z)) s)
    (hm : ∀ f, .op i .make f ∉ m) :
    ∃ m₁ f m₂ y, m = m₁ ++ .op i .copySaved f :: m₂ ∧
    Handover G n svc i rf a m₁ f m₂ rf' z y s := by
  obtain ⟨t₀, ha, hrest⟩ := hr.split
  obtain ⟨t₁, hmake, hrest⟩ := hrest.cons_inv
  obtain ⟨u, hu, hrest⟩ := hrest.split
  obtain ⟨u', hmake', hz⟩ := hrest.cons_inv
  have huinv : SysInv u := sysInv_run (ha.append (hu.cons hmake))
  obtain ⟨m₁, f, m₂, y, rfl, hfirst, ⟨t, t', x₀, ht, hcopy, hty, hty', hy, hret⟩, hsaved⟩ :=
    handed_run (sysInv_run ha) hmake hu hmake' hm
  have ht : Run (Moves G n svc) makeConfig (a ++ .op i .make rf :: m₁) t :=
    ha.append (ht.cons hmake)
  refine ⟨m₁, f, m₂, y, rfl, hfirst, ⟨t, t', ht, hcopy, hty, hty'⟩,
    ⟨u, ha.append (hu.cons hmake), hsaved⟩, ?_, ?_⟩
  · obtain ⟨-, -, p, y', hp, hy', hown, hpy⟩ := make_spec huinv hmake'
    have hyy : y' = y := by simpa [System.savedContent, hp, hy'] using hsaved
    obtain ⟨hi, hx⟩ := content_run (sysInv_step huinv hmake') hz hown.inst hpy
    rw [System.contentOf, hi, ← hyy]
    exact hx
  · intro c k b x d hk hc hls
    obtain ⟨-, hnone, -⟩ := make_spec (sysInv_run ha) hmake
    obtain ⟨p, q, rfl, rfl⟩ :=
      acked_before_copy (by simpa using hls) (hls ▸ hr) ha hnone ht hcopy hret hk hc
    refine ⟨p, q, rfl, rfl, ?_⟩
    rw [hy, lastSave_append]
    simp [lastSave, Event.saves]

end

/-! ## A server that saves, answers and is restarted -/

def startTrace (name f : Nat) : List (Event Nat (BitVec 8) Unit) :=
  [.begin 0 true, .op 0 (.disableOut 0) 0, .op 0 (.disableIn 0) 0, .op 0 .deleteServer 0,
    .op 0 .copySaved f, .op 0 .clearRaft 0, .op 0 .readRaftState 0, .op 0 .readSnapshot 0,
    .op 0 .renew (f + 1), .endnames 0 fun _ => name, .op 0 (.makeEnd 0) 0, .op 0 (.connect 0) 0,
    .op 0 .copyOrMake (f + 2)]

def answerTrace : List (Event Nat (BitVec 8) Unit) :=
  [.op 0 .setRaft 0, .op 0 .makeServer 0, .op 0 .addService 0, .op 0 .addServer 0,
    .rpc (.enable 7 true), .rpc (.call 0 7 "Raft.m" 5 0), .rpc (.act 0 .send), .rpc (.act 0 .read),
    .rpc (.act 0 .launch), .rpc (.act 0 (.dispatch 0)), .save 0 ⟨[1], [2]⟩ (some 0),
    .rpc (.act 0 (.finish 7)), .rpc (.act 0 .answer), .rpc (.act 0 (.check false false)),
    .rpc (.act 0 (.reply ⟨true, [7]⟩))]

def echoService : Service Unit := ⟨fun name => if name = "m" then some () else none⟩

def restartTrace : List (Event Nat (BitVec 8) Unit) :=
  startTrace 7 0 ++ .op 0 .make 0 :: (answerTrace ++ startTrace 8 3 ++ .op 0 .make 1 :: [])

theorem persister_handover_restart :
    ∃ s, Run (Moves byteGob 1 echoService) makeConfig restartTrace s ∧
    s.contentOf 1 = some ⟨[1], [2]⟩ ∧ (s.net.calls 0).map Call.client = some (.returned true) ∧
    ∃ m₁ f m₂ y, answerTrace ++ startTrace 8 3 = m₁ ++ .op 0 .copySaved f :: m₂ ∧
      Handover byteGob 1 echoService 0 0 (startTrace 7 0) m₁ f m₂ 1 [] y s := by
  obtain ⟨s, hs, hx, hk⟩ : ∃ s, restartTrace.foldlM (System.step byteGob 1 echoService) makeConfig =
    some s ∧
      s.contentOf 1 = some ⟨[1], [2]⟩ ∧ (s.net.calls 0).map Call.client = some (.returned true) :=
        ⟨_, rfl, rfl, rfl⟩
  have hr : Run (Moves byteGob 1 echoService) makeConfig restartTrace s := Run.of_foldlM hs
  exact ⟨s, hr, hx, hk, persister_handover hr (by simp [answerTrace, startTrace])⟩

end Csc412.Raft
