import Csc412.Raft.PersistSound

/-!
# Which instances are registered

A server object is registered only while `crash1` has not removed it, and its methods
are those of the instance that `start1` made last. An instance whose persister has been
copied is never registered again.
-/

namespace Csc412.Raft

open Labrpc

section
variable {E V T : Type} {n : Nat} {s s' : System E V T} {e : Event E V T}

/-! ## Which servers are registered -/

def Pc.live : Pc → Bool
  | .idle | .disableOut _ | .disableIn _ | .deleteServer => true
  | _ => false

def Pc.made : Pc → Bool
  | .setRaft | .makeServer | .addService | .addServer => true
  | _ => false

/-- What an event does to one driver, to the instances and to their servers. -/
inductive Drives (n : Nat) (s : System E V T) (e : Event E V T) (s' : System E V T) : Prop
  | still : s'.drivers = s.drivers → s'.instances = s.instances → s'.receiver = s.receiver →
      (∀ i pc fresh, e ≠ .op i pc fresh) → Drives n s e s'
  | unmade (i d) : s'.drivers = Function.update s.drivers i d → s'.instances = s.instances →
    s'.receiver = s.receiver →
      d.pc.made = false → (∀ j pc fresh, e = .op j pc fresh → j = i ∧ (s.drivers i).pc = pc) →
      (∀ fresh, e ≠ .op i .makeServer fresh) →
      (d.pc.live = true ∨ (s.drivers i).pc.live = false ∨ ∃ fresh, e = .op i .deleteServer fresh) →
      ((s.drivers i).pc = .addServer → d.pc.live = true) → Drives n s e s'
  | make (i fresh p d) : e = .op i .make fresh → s'.drivers = Function.update s.drivers i d →
    d.pc = .setRaft →
      d.rf = some fresh → s.instances fresh = none →
      s'.instances = Function.update s.instances fresh (some ⟨i, p⟩) →
      s'.receiver = s.receiver → (s.drivers i).pc = .make → Drives n s e s'
  | setRaft (i fresh d) : e = .op i .setRaft fresh → s'.drivers = Function.update s.drivers i d →
    d.pc = .makeServer →
      d.rf = (s.drivers i).rf → s'.instances = s.instances → s'.receiver = s.receiver →
      (s.drivers i).pc = .setRaft →
      Drives n s e s'
  | makeServer (i fresh d) : e = .op i .makeServer fresh →
    s'.drivers = Function.update s.drivers i d →
      d.pc = .addService → d.rf = (s.drivers i).rf → d.srv = some fresh →
      s'.instances = s.instances →
      s'.receiver = s.receiver → (s.drivers i).pc = .makeServer → Drives n s e s'
  | addService (i fresh o d) : e = .op i .addService fresh →
    s'.drivers = Function.update s.drivers i d →
      d.pc = .addServer → d.rf = (s.drivers i).rf → d.srv = some o → (s.drivers i).srv = some o →
      s'.instances = s.instances → s'.receiver = Function.update s.receiver o (s.drivers i).rf →
      (s.drivers i).pc = .addService → Drives n s e s'

theorem Pc.quiet_next {pc : Pc} (hq : pc.quiet = true ∨ pc.reads = true) (start : Bool) :
    (pc.next n start).made = false ∧
    ((pc.next n start).live = true ∨ pc.live = false ∨ pc = .deleteServer) ∧
      (pc = .addServer → (pc.next n start).live = true) ∧ pc ≠ .makeServer := by
  cases pc with
  | disableOut j | disableIn j | connect j =>
    by_cases hj : j + 1 < n <;> simp [Pc.next, hj, Pc.made, Pc.live]
  | renew => cases start <;> simp [Pc.next, Pc.made, Pc.live]
  | deleteServer | copySaved | readRaftState | readSnapshot | makeEnd | addServer =>
    simp [Pc.next, Pc.made, Pc.live]
  | _ => simp [Pc.quiet, Pc.reads] at hq

theorem drives (he : Effect n s e s') (net : Network E Nat V T) :
    Drives n s e { s' with net := net } := by
  cases he with
  | rpc hl => exact .still rfl rfl rfl (by simp)
  | save hr hc => exact .still rfl rfl rfl (by simp)
  | @begin i start hp =>
    refine .unmade i _ rfl rfl rfl ?_ (by simp) (by simp) (.inl ?_) (by simp [hp])
    · unfold crash1
      split <;> rfl
    · unfold crash1
      split <;> rfl
  | @endnames i names hp =>
    refine .unmade i _ rfl rfl rfl ?_ (by simp) (by simp) (.inr (.inl (by rw [hp]; rfl)))
      (by simp [hp])
    by_cases hn : n = 0 <;> simp [Driver.advance, hp, Pc.next, hn, Pc.made]
  | @quiet i pc fresh hp hq =>
    obtain ⟨h₁, h₂, h₃, h₄⟩ := Pc.quiet_next (n := n) (hq.imp_right And.left) (s.drivers i).start
    rw [← hp] at h₁ h₂ h₃ h₄
    refine .unmade i _ rfl rfl rfl h₁ (by simp [hp]) ?_ ?_ h₃
    · rintro fresh' heq
      cases heq
      exact h₄ hp
    · refine h₂.imp_right fun h => h.imp_right fun h => ⟨fresh, ?_⟩
      rw [← hp, h]
  | @copySaved i fresh x hp hx hf =>
    exact .unmade i _ rfl rfl rfl (by simp [Driver.advance, hp, Pc.next, Pc.made]) (by simp [hp])
      (by simp)
      (.inr (.inl (by rw [hp]; rfl))) (by simp [hp])
  | @clearRaft i fresh hp =>
    exact .unmade i _ rfl rfl rfl (by simp [Driver.advance, hp, Pc.next, Pc.made]) (by simp [hp])
      (by simp)
      (.inr (.inl (by rw [hp]; rfl))) (by simp [hp])
  | @readRaftState i fresh x hp hx =>
    exact .unmade i _ rfl rfl rfl (by simp [Driver.advance, hp, Pc.next, Pc.made]) (by simp [hp])
      (by simp)
      (.inr (.inl (by rw [hp]; rfl))) (by simp [hp])
  | @readSnapshot i fresh x hp hx =>
    exact .unmade i _ rfl rfl rfl (by simp [Driver.advance, hp, Pc.next, Pc.made]) (by simp [hp])
      (by simp)
      (.inr (.inl (by rw [hp]; rfl))) (by simp [hp])
  | @renew i fresh hp hx hf =>
    refine .unmade i _ rfl rfl rfl ?_ (by simp [hp]) (by simp) (.inr (.inl (by rw [hp]; rfl)))
      (by simp [hp])
    by_cases hst : (s.drivers i).start <;> simp [Driver.advance, hp, Pc.next, hst, Pc.made]
  | @copyOrMake i fresh x hp hf hx =>
    exact .unmade i _ rfl rfl rfl (by simp [Driver.advance, hp, Pc.next, Pc.made]) (by simp [hp])
      (by simp)
      (.inr (.inl (by rw [hp]; rfl))) (by simp [hp])
  | @make i fresh p hp hs hf =>
    exact .make i fresh p _ rfl rfl (by simp [Driver.advance, hp, Pc.next]) rfl hf rfl rfl hp
  | @setRaft i fresh hp =>
    exact .setRaft i fresh _ rfl rfl (by simp [Driver.advance, hp, Pc.next]) rfl rfl rfl hp
  | @makeServer i fresh hp =>
    exact .makeServer i fresh _ rfl rfl (by simp [Driver.advance, hp, Pc.next]) rfl rfl rfl rfl hp
  | @addService i fresh o hp ho =>
    exact .addService i fresh o _ rfl rfl (by simp [Driver.advance, hp, Pc.next]) rfl ho ho
      rfl rfl hp

def Event.servers (s : System E V T) : Event E V T → Nat → Option Nat
  | .op i .deleteServer _ => Function.update s.net.servers i none
  | .op i .addServer _ => match (s.drivers i).srv with
    | some o => Function.update s.net.servers i (some o)
    | none => s.net.servers
  | _ => s.net.servers

structure Serves (s : System E V T) (e : Event E V T) (s' : System E V T) : Prop where
  exist : ∀ o, (s.net.objects o).isSome → (s'.net.objects o).isSome
  servers : s'.net.servers = e.servers s
  fresh : ∀ i o, e = .op i .makeServer o → s.net.objects o = none ∧ (s'.net.objects o).isSome

/-- Registered servers belong to the newest instances. -/
structure ServeInv (s : System E V T) : Prop where
  made : ∀ i, (s.drivers i).pc.made = true → ∃ rf r, (s.drivers i).rf = some rf ∧
    s.instances rf = some r ∧ r.me = i
  service : ∀ i, (s.drivers i).pc = .addService → ∃ o, (s.drivers i).srv = some o ∧
    (s.net.objects o).isSome ∧
    s.receiver o = none
  server : ∀ i, (s.drivers i).pc = .addServer → ∃ o, (s.drivers i).srv = some o ∧
    s.receiver o = (s.drivers i).rf
  srv_inj : ∀ i j, (s.drivers i).pc = .addService → (s.drivers j).pc = .addService →
    (s.drivers i).srv = (s.drivers j).srv → i = j
  known : ∀ o rf, s.receiver o = some rf → (s.net.objects o).isSome
  registered : ∀ i o, s.net.servers i = some o → (s.drivers i).pc.live = true ∧
    ∃ rf r, s.receiver o = some rf ∧ s.instances rf = some r ∧ r.me = i

theorem Drives.instances (hd : Drives n s e s') {rf : Nat} {r : Instance}
    (hr : s.instances rf = some r) :
    s'.instances rf = some r := by
  cases hd with
  | make i fresh p d he hdr hpc hrf hf hi =>
    rw [hi, Function.update_of_ne, hr]
    rintro rfl
    rw [hf] at hr
    cases hr
  | still hdr hi | unmade i d hdr hi =>
    rw [hi]
    exact hr
  | setRaft i fresh d he hdr hpc hrf hi | makeServer i fresh d he hdr hpc hrf hsrv hi =>
    rw [hi]
    exact hr
  | addService i fresh o d he hdr hpc hrf hsrv hsrv' hi =>
    rw [hi]
    exact hr

/-- Only `addService` gives a server object its receiver. -/
theorem Drives.receiver_cases (hd : Drives n s e s') :
    s'.receiver = s.receiver ∨ ∃ i o, (s.drivers i).pc = .addService ∧
    (s.drivers i).srv = some o ∧ s'.receiver = Function.update s.receiver o (s.drivers i).rf := by
  cases hd with
  | addService i fresh o d he hdr hpc hrf hsrv hsrv' hi hrec hpc' =>
    exact .inr ⟨i, o, hpc', hsrv', hrec⟩
  | still hdr hi hrec | unmade i d hdr hi hrec => exact .inl hrec
  | make i fresh p d he hdr hpc hrf hf hi hrec => exact .inl hrec
  | setRaft i fresh d he hdr hpc hrf hi hrec => exact .inl hrec
  | makeServer i fresh d he hdr hpc hrf hsrv hi hrec => exact .inl hrec

theorem Drives.receiver (hd : Drives n s e s') (h : ServeInv s) {o rf : Nat}
    (hr : s.receiver o = some rf) :
    s'.receiver o = some rf := by
  rcases hd.receiver_cases with hrec | ⟨i, o', hpc, hsrv, hrec⟩
  · rw [hrec]
    exact hr
  · rw [hrec, Function.update_of_ne, hr]
    rintro rfl
    obtain ⟨o'', ho, -, hnone⟩ := h.service i hpc
    rw [hsrv] at ho
    cases ho
    rw [hr] at hnone
    cases hnone

theorem driver_cases {i : Nat} {d : Driver} (hd : s'.drivers = Function.update s.drivers i d)
    (j : Nat) :
    j = i ∧ s'.drivers j = d ∨ j ≠ i ∧ s'.drivers j = s.drivers j := by
  rw [hd, Function.update_apply]
  split
  · rename_i h
    exact .inl ⟨h, rfl⟩
  · rename_i h
    exact .inr ⟨h, rfl⟩

theorem Drives.made (hd : Drives n s e s') {j : Nat} (hj : (s'.drivers j).pc.made = true) :
    (s.drivers j).pc.made = true ∧ (s'.drivers j).rf = (s.drivers j).rf ∨
      ∃ fresh p, (s'.drivers j).rf = some fresh ∧ s.instances fresh = none ∧
      s'.instances fresh = some ⟨j, p⟩ := by
  have hkeep : s'.drivers j = s.drivers j → (s.drivers j).pc.made = true ∧
      (s'.drivers j).rf = (s.drivers j).rf := by
    intro hjd
    rw [hjd] at hj
    exact ⟨hj, by rw [hjd]⟩
  cases hd with
  | still hdr => exact .inl (hkeep (by rw [hdr]))
  | unmade i d hdr hi hrec hm =>
    rcases driver_cases hdr j with ⟨-, hjd⟩ | ⟨-, hjd⟩
    · rw [hjd, hm] at hj
      cases hj
    · exact .inl (hkeep hjd)
  | make i fresh p d he hdr hpc hrf hf hi =>
    rcases driver_cases hdr j with ⟨rfl, hjd⟩ | ⟨-, hjd⟩
    · exact .inr ⟨fresh, p, by rw [hjd, hrf], hf, by rw [hi, Function.update_self]⟩
    · exact .inl (hkeep hjd)
  | setRaft i fresh d he hdr hpc hrf hi hrec hpc' =>
    rcases driver_cases hdr j with ⟨rfl, hjd⟩ | ⟨-, hjd⟩
    · exact .inl ⟨by rw [hpc']; rfl, by rw [hjd, hrf]⟩
    · exact .inl (hkeep hjd)
  | makeServer i fresh d he hdr hpc hrf hsrv hi hrec hpc' =>
    rcases driver_cases hdr j with ⟨rfl, hjd⟩ | ⟨-, hjd⟩
    · exact .inl ⟨by rw [hpc']; rfl, by rw [hjd, hrf]⟩
    · exact .inl (hkeep hjd)
  | addService i fresh o d he hdr hpc hrf hsrv hsrv' hi hrec hpc' =>
    rcases driver_cases hdr j with ⟨rfl, hjd⟩ | ⟨-, hjd⟩
    · exact .inl ⟨by rw [hpc']; rfl, by rw [hjd, hrf]⟩
    · exact .inl (hkeep hjd)

theorem ServeInv.made_step (h : ServeInv s) (hd : Drives n s e s') (j : Nat)
    (hj : (s'.drivers j).pc.made = true) :
    ∃ rf r, (s'.drivers j).rf = some rf ∧ s'.instances rf = some r ∧ r.me = j := by
  rcases hd.made hj with ⟨hm, hrf⟩ | ⟨fresh, p, hrf, -, hi⟩
  · obtain ⟨rf, r, h₁, h₂, h₃⟩ := h.made j hm
    exact ⟨rf, r, hrf.trans h₁, hd.instances h₂, h₃⟩
  · exact ⟨fresh, ⟨j, p⟩, hrf, hi, rfl⟩

theorem ServeInv.service_step (h : ServeInv s) (hd : Drives n s e s') (hs : Serves s e s') (j : Nat)
    (hj : (s'.drivers j).pc = .addService) :
    ∃ o, (s'.drivers j).srv = some o ∧ (s'.net.objects o).isSome ∧ s'.receiver o = none := by
  have hold : s'.receiver = s.receiver → (s.drivers j).pc = .addService →
    s'.drivers j = s.drivers j →
      ∃ o, (s'.drivers j).srv = some o ∧ (s'.net.objects o).isSome ∧ s'.receiver o = none := by
    intro hrec hpc hdr
    obtain ⟨o, h₁, h₂, h₃⟩ := h.service j hpc
    rw [hdr, hrec]
    exact ⟨o, h₁, hs.exist o h₂, h₃⟩
  cases hd with
  | still hdr hi hrec =>
    rw [hdr] at hj
    exact hold hrec hj (by rw [hdr])
  | unmade i d hdr hi hrec hm =>
    rcases driver_cases hdr j with ⟨-, hjd⟩ | ⟨-, hjd⟩ <;> rw [hjd] at hj
    · rw [hj] at hm
      cases hm
    · exact hold hrec hj hjd
  | make i fresh p d he hdr hpc hrf hf hi hrec =>
    rcases driver_cases hdr j with ⟨rfl, hjd⟩ | ⟨-, hjd⟩ <;> rw [hjd] at hj
    · rw [hpc] at hj
      cases hj
    · exact hold hrec hj hjd
  | setRaft i fresh d he hdr hpc hrf hi hrec hpc' =>
    rcases driver_cases hdr j with ⟨rfl, hjd⟩ | ⟨-, hjd⟩ <;> rw [hjd] at hj
    · rw [hpc] at hj
      cases hj
    · exact hold hrec hj hjd
  | makeServer i fresh d he hdr hpc hrf hsrv hi hrec hpc' =>
    rcases driver_cases hdr j with ⟨rfl, hjd⟩ | ⟨-, hjd⟩
    · obtain ⟨hnone, hsome⟩ := hs.fresh j fresh he
      refine ⟨fresh, by rw [hjd]; exact hsrv, hsome, ?_⟩
      rw [hrec]
      cases hr : s.receiver fresh with
      | none => rfl
      | some rf =>
        have := h.known fresh rf hr
        rw [hnone] at this
        cases this
    · rw [hjd] at hj
      exact hold hrec hj hjd
  | addService i fresh o d he hdr hpc hrf hsrv hsrv' hi hrec hpc' =>
    rcases driver_cases hdr j with ⟨rfl, hjd⟩ | ⟨hne, hjd⟩ <;> rw [hjd] at hj
    · rw [hpc] at hj
      cases hj
    · obtain ⟨o', h₁, h₂, h₃⟩ := h.service j hj
      refine ⟨o', by rw [hjd]; exact h₁, hs.exist o' h₂, ?_⟩
      rw [hrec, Function.update_of_ne]
      · exact h₃
      · rintro rfl
        exact hne (h.srv_inj j i hj hpc' (by rw [h₁, hsrv']))

theorem ServeInv.server_step (h : ServeInv s) (hd : Drives n s e s') (j : Nat)
    (hj : (s'.drivers j).pc = .addServer) :
    ∃ o, (s'.drivers j).srv = some o ∧ s'.receiver o = (s'.drivers j).rf := by
  have hkeep : (s.drivers j).pc = .addServer → s'.drivers j = s.drivers j →
      ∃ o, (s'.drivers j).srv = some o ∧ s'.receiver o = (s'.drivers j).rf := by
    intro hpc hdr
    obtain ⟨o, h₁, h₂⟩ := h.server j hpc
    obtain ⟨rf, r, h₃, -⟩ := h.made j (by rw [hpc]; rfl)
    rw [hdr]
    refine ⟨o, h₁, ?_⟩
    rw [h₃] at h₂ ⊢
    exact hd.receiver h h₂
  cases hd with
  | still hdr =>
    rw [hdr] at hj
    exact hkeep hj (by rw [hdr])
  | unmade i d hdr hi hrec hm =>
    rcases driver_cases hdr j with ⟨-, hjd⟩ | ⟨-, hjd⟩ <;> rw [hjd] at hj
    · rw [hj] at hm
      cases hm
    · exact hkeep hj hjd
  | make i fresh p d he hdr hpc | setRaft i fresh d he hdr hpc | makeServer i fresh d he hdr hpc =>
    rcases driver_cases hdr j with ⟨rfl, hjd⟩ | ⟨-, hjd⟩ <;> rw [hjd] at hj
    · rw [hpc] at hj
      cases hj
    · exact hkeep hj hjd
  | addService i fresh o d he hdr hpc hrf hsrv hsrv' hi hrec hpc' =>
    rcases driver_cases hdr j with ⟨rfl, hjd⟩ | ⟨hne, hjd⟩
    · refine ⟨o, by rw [hjd]; exact hsrv, ?_⟩
      rw [hrec, hjd, hrf, Function.update_self]
    · rw [hjd] at hj
      exact hkeep hj hjd

theorem Drives.srv (hd : Drives n s e s') {j : Nat} (hj : (s'.drivers j).pc = .addService) :
    (s.drivers j).pc = .addService ∧ s'.drivers j = s.drivers j ∨
      ∃ fresh, e = .op j .makeServer fresh ∧ (s'.drivers j).srv = some fresh := by
  cases hd with
  | still hdr =>
    rw [hdr] at hj
    exact .inl ⟨hj, by rw [hdr]⟩
  | unmade i d hdr hi hrec hm =>
    rcases driver_cases hdr j with ⟨-, hjd⟩ | ⟨-, hjd⟩ <;> rw [hjd] at hj
    · rw [hj] at hm
      cases hm
    · exact .inl ⟨hj, hjd⟩
  | makeServer i fresh d he hdr hpc hrf hsrv =>
    rcases driver_cases hdr j with ⟨rfl, hjd⟩ | ⟨-, hjd⟩
    · exact .inr ⟨fresh, he, by rw [hjd]; exact hsrv⟩
    · rw [hjd] at hj
      exact .inl ⟨hj, hjd⟩
  | make i fresh p d he hdr hpc | setRaft i fresh d he hdr hpc
  | addService i fresh o d he hdr hpc =>
    rcases driver_cases hdr j with ⟨rfl, hjd⟩ | ⟨-, hjd⟩ <;> rw [hjd] at hj
    · rw [hpc] at hj
      cases hj
    · exact .inl ⟨hj, hjd⟩

theorem ServeInv.srv_inj_step (h : ServeInv s) (hd : Drives n s e s') (hs : Serves s e s')
    (i j : Nat) (hi : (s'.drivers i).pc = .addService) (hj : (s'.drivers j).pc = .addService)
    (heq : (s'.drivers i).srv = (s'.drivers j).srv) : i = j := by
  have hnew : ∀ {i j fresh}, e = .op i .makeServer fresh → (s'.drivers i).srv = some fresh →
      (s.drivers j).pc = .addService → (s.drivers j).srv ≠ (s'.drivers i).srv := by
    intro i j fresh he hsrv hpc heq
    obtain ⟨o, ho, hex, -⟩ := h.service j hpc
    rw [ho, hsrv] at heq
    cases heq
    rw [(hs.fresh i fresh he).1] at hex
    cases hex
  rcases hd.srv hi with ⟨hi', hdi⟩ | ⟨f, he, hsrv⟩
  · rcases hd.srv hj with ⟨hj', hdj⟩ | ⟨f, he, hsrv⟩
    · exact h.srv_inj i j hi' hj' (by rw [← hdi, ← hdj]; exact heq)
    · exact absurd (by rw [← hdi]; exact heq) (hnew he hsrv hi')
  · rcases hd.srv hj with ⟨hj', hdj⟩ | ⟨f', he', -⟩
    · exact absurd (by rw [← hdj]; exact heq.symm) (hnew he hsrv hj')
    · rw [he] at he'
      cases he'
      rfl

theorem ServeInv.known_step (h : ServeInv s) (hd : Drives n s e s') (hs : Serves s e s')
    (o rf : Nat) (hr : s'.receiver o = some rf) : (s'.net.objects o).isSome := by
  apply hs.exist
  rcases hd.receiver_cases with hrec | ⟨i, o', hpc, hsrv, hrec⟩
  · rw [hrec] at hr
    exact h.known o rf hr
  · rw [hrec, Function.update_apply] at hr
    split at hr
    · rename_i ho
      obtain ⟨o'', h₁, h₂, -⟩ := h.service i hpc
      rw [hsrv] at h₁
      cases h₁
      rw [ho]
      exact h₂
    · exact h.known o rf hr

theorem Drives.live (hd : Drives n s e s') {j : Nat} (hj : (s.drivers j).pc.live = true) :
    (s'.drivers j).pc.live = true ∨ ∃ fresh, e = .op j .deleteServer fresh := by
  have hmade : ∀ {i pc}, (s.drivers i).pc = pc → pc.live = false → j ≠ i := by
    rintro i pc hpc hl rfl
    rw [hpc, hl] at hj
    cases hj
  cases hd with
  | still hdr => exact .inl (by rw [hdr]; exact hj)
  | unmade i d hdr hi hrec hm hop hmk hlive =>
    rcases driver_cases hdr j with ⟨rfl, hjd⟩ | ⟨-, hjd⟩
    · rw [hjd]
      rcases hlive with hl | hl | hl
      · exact .inl hl
      · rw [hl] at hj
        cases hj
      · exact .inr hl
    · exact .inl (by rw [hjd]; exact hj)
  | make i fresh p d he hdr hpc hrf hf hi hrec hpc' | setRaft i fresh d he hdr hpc hrf hi hrec hpc'
  | makeServer i fresh d he hdr hpc hrf hsrv hi hrec hpc'
  | addService i fresh o d he hdr hpc hrf hsrv hsrv' hi hrec hpc' =>
    rcases driver_cases hdr j with ⟨hji, -⟩ | ⟨-, hjd⟩
    · exact absurd hji (hmade hpc' rfl)
    · exact .inl (by rw [hjd]; exact hj)

theorem Drives.addServer (hd : Drives n s e s') {i fresh : Nat} (he : e = .op i .addServer fresh) :
    (s.drivers i).pc = .addServer ∧ (s'.drivers i).pc.live = true := by
  cases hd with
  | still _ _ _ hop => exact absurd he (hop _ _ _)
  | unmade i' d hdr hi hrec hm hop hmk hlive hadd =>
    obtain ⟨rfl, hpc⟩ := hop _ _ _ he
    refine ⟨hpc, ?_⟩
    rw [hdr, Function.update_self]
    exact hadd hpc
  | make _ _ _ _ he' | setRaft _ _ _ he' | makeServer _ _ _ he' | addService _ _ _ _ he' =>
    rw [he] at he'
    cases he'

theorem Serves.registered (hs : Serves s e s') (hd : Drives n s e s') {j o : Nat}
    (ho : s'.net.servers j = some o) :
    s.net.servers j = some o ∧ (∀ fresh, e ≠ .op j .deleteServer fresh) ∨
      (s.drivers j).pc = .addServer ∧ (s.drivers j).srv = some o ∧
      (s'.drivers j).pc.live = true := by
  rw [hs.servers] at ho
  unfold Event.servers at ho
  split at ho
  · rename_i i fresh
    rw [Function.update_apply] at ho
    split at ho
    · cases ho
    · rename_i hji
      exact .inl ⟨ho, fun f hf => hji (by cases hf; rfl)⟩
  · rename_i i fresh
    obtain ⟨hpc, hlive⟩ := hd.addServer rfl
    cases hsrv : (s.drivers i).srv with
    | none =>
      simp only [hsrv] at ho
      exact .inl ⟨ho, by simp⟩
    | some o' =>
      simp only [hsrv, Function.update_apply] at ho
      split at ho
      · rename_i hji
        cases ho
        subst hji
        exact .inr ⟨hpc, hsrv, hlive⟩
      · exact .inl ⟨ho, by simp⟩
  · rename_i hdel hadd
    exact .inl ⟨ho, fun f hf => hdel j f hf⟩

theorem ServeInv.registered_step (h : ServeInv s) (hd : Drives n s e s') (hs : Serves s e s')
    (j o : Nat) (ho : s'.net.servers j = some o) : (s'.drivers j).pc.live = true ∧
      ∃ rf r, s'.receiver o = some rf ∧ s'.instances rf = some r ∧ r.me = j := by
  rcases hs.registered hd ho with ⟨hsj, hdel⟩ | ⟨hpc, hsrv, hlive⟩
  · obtain ⟨hlive, rf, r, h₁, h₂, h₃⟩ := h.registered j o hsj
    refine ⟨(hd.live hlive).resolve_right ?_, rf, r, hd.receiver h h₁, hd.instances h₂, h₃⟩
    rintro ⟨fresh, he⟩
    exact hdel fresh he
  · obtain ⟨o', h₁, h₂⟩ := h.server j hpc
    rw [hsrv] at h₁
    cases h₁
    obtain ⟨rf, r, h₃, h₄, h₅⟩ := h.made j (by rw [hpc]; rfl)
    rw [h₃] at h₂
    exact ⟨hlive, rf, r, hd.receiver h h₂, hd.instances h₄, h₅⟩

theorem ServeInv.step (h : ServeInv s) (hd : Drives n s e s') (hs : Serves s e s') : ServeInv s' :=
  ⟨h.made_step hd, h.service_step hd hs, h.server_step hd, h.srv_inj_step hd hs, h.known_step hd hs,
    h.registered_step hd hs⟩

/-! ## Instances that are gone -/

/-- The instance `rf` is not registered, and no `start1` is about to register it. -/
structure Retired (rf : Nat) (s : System E V T) : Prop where
  exists_inst : s.instances rf ≠ none
  servers : ∀ i o, s.net.servers i = some o → s.receiver o ≠ some rf
  drivers : ∀ i, (s.drivers i).pc.made = true → (s.drivers i).rf ≠ some rf

/-- When `crash1` copies the persister, the old instances of the server are gone. -/
theorem ServeInv.retired (h : ServeInv s) {i rf : Nat} {r : Instance}
    (hpc : (s.drivers i).pc = .copySaved) (hr : s.instances rf = some r) (hme : r.me = i) :
    Retired rf s := by
  refine ⟨by simp [hr], fun j o ho hrec => ?_, fun j hj hrf => ?_⟩
  · obtain ⟨hlive, rf', r', h₁, h₂, h₃⟩ := h.registered j o ho
    rw [hrec] at h₁
    cases h₁
    rw [hr] at h₂
    cases h₂
    rw [← h₃, hme, hpc] at hlive
    cases hlive
  · obtain ⟨rf', r', h₁, h₂, h₃⟩ := h.made j hj
    rw [hrf] at h₁
    cases h₁
    rw [hr] at h₂
    cases h₂
    rw [← h₃, hme, hpc] at hj
    cases hj

theorem Drives.receiver_before (hd : Drives n s e s') {o rf : Nat} (hr : s'.receiver o = some rf) :
    s.receiver o = some rf ∨ ∃ i, (s.drivers i).pc.made = true ∧ (s.drivers i).rf = some rf := by
  rcases hd.receiver_cases with hrec | ⟨i, o', hpc, hsrv, hrec⟩
  · rw [hrec] at hr
    exact .inl hr
  · rw [hrec, Function.update_apply] at hr
    split at hr
    · exact .inr ⟨i, by rw [hpc]; rfl, hr⟩
    · exact .inl hr

theorem Retired.step {rf : Nat} (h : Retired rf s) (hinv : ServeInv s) (hd : Drives n s e s')
    (hs : Serves s e s') :
    Retired rf s' := by
  obtain ⟨r, hr⟩ := Option.ne_none_iff_exists'.mp h.exists_inst
  refine ⟨by simp [hd.instances hr], fun j o ho hrec => ?_, fun j hj hrf => ?_⟩
  · rcases hd.receiver_before hrec with hrec | ⟨i, hm, hrf⟩
    · rcases hs.registered hd ho with ⟨hsj, -⟩ | ⟨hpc, hsrv, -⟩
      · exact h.servers j o hsj hrec
      · obtain ⟨o', h₁, h₂⟩ := hinv.server j hpc
        rw [hsrv] at h₁
        cases h₁
        exact h.drivers j (by rw [hpc]; rfl) (h₂.symm.trans hrec)
    · exact h.drivers i hm hrf
  · rcases hd.made hj with ⟨hm, heq⟩ | ⟨fresh, p, hf, hnone, -⟩
    · exact h.drivers j hm (heq.symm.trans hrf)
    · rw [hrf] at hf
      cases hf
      exact h.exists_inst hnone

end

end Csc412.Raft
