import Csc412.Raft.WiringSound

/-!
# Soundness of the tester's partitions

Where the test is between two of its moves, an end leads to a server exactly if it is
the present end of one connected server to another, and that one is running. So no
request and no reply crosses a partition until the test connects a server of it again,
and none crosses an end that a later start has replaced.
-/

namespace Csc412.Raft

open Lib Labrpc

section
variable {E V T : Type} [DecidableEq E] [DecidableEq T] {G : Gob V T} {h h' : Harness E V T}
    {m : Move E V T}

/-! ## Moves -/

def Harness.Steps (G : Gob V T) (h : Harness E V T) (m : Move E V T) (h' : Harness E V T) : Prop :=
  h.step G m = some h'

/-- Everything a step of the tester and its network can do. -/
inductive Moved (G : Gob V T) (h : Harness E V T) : Move E V T → Harness E V T → Prop
  | traffic {l s} : Raft.traffic l = true → step G h.net l = some s →
    Moved G h (.traffic l) { h with net := s }
  | panic {ops} : h.pending = none :: ops →
    Moved G h .proceed { h with pending := ops, panicked := true }
  | op {l ops s} : h.pending = some l :: ops → step G h.net l = some s →
      Moved G h .proceed { h with net := s, pending := ops }
  | connect {i} : h.Quiet → i < h.n → Moved G h (.connect i) (h.connect i)
  | disconnect {i} : h.Quiet → i < h.n → Moved G h (.disconnect i) (h.disconnect i)
  | crash1 {i} : h.Quiet → i < h.n → Moved G h (.crash1 i) (h.crash1 i)
  | start1 {i names server svc} : h.Quiet → i < h.n →
    Moved G h (.start1 i names server svc) (h.start1 i names server svc)

theorem steps_moved (hs : Harness.Steps G h m h') : Moved G h m h' := by
  unfold Harness.Steps Harness.step at hs
  cases m with
  | traffic l =>
    simp only at hs
    split at hs
    · rename_i hl
      obtain ⟨s, hstep, rfl⟩ := Option.map_eq_some_iff.mp hs
      exact .traffic hl.1 hstep
    · cases hs
  | proceed =>
    simp only at hs
    split at hs
    · rename_i hp
      cases hs
      exact .panic hp
    · rename_i hp
      obtain ⟨s, hstep, rfl⟩ := Option.map_eq_some_iff.mp hs
      exact .op hp hstep
    · cases hs
  | connect i =>
    simp only at hs
    split at hs <;> cases hs
    rename_i hq
    exact .connect hq.1 hq.2
  | disconnect i =>
    simp only at hs
    split at hs <;> cases hs
    rename_i hq
    exact .disconnect hq.1 hq.2
  | crash1 i =>
    simp only at hs
    split at hs <;> cases hs
    rename_i hq
    exact .crash1 hq.1 hq.2
  | start1 i names server svc =>
    simp only at hs
    split at hs <;> cases hs
    rename_i hq
    exact .start1 hq.1 hq.2

/-! ## The wiring along a run -/

omit [DecidableEq E] [DecidableEq T] in
theorem Settled.net {w : Wiring E} (hs : Settled h w) (s : Network E Nat V T)
    (ops : List (Op E V T)) (b : Bool) :
    Settled { h with net := s, pending := ops, panicked := b } w :=
  ⟨hs.named, hs.inj, hs.made, hs.enabled, hs.servers⟩

/-- The pending operations lead to the wiring that the fields of the tester call for. -/
def Settling (h : Harness E V T) : Prop :=
  h.panicked = false → h.net.fatal = none → ∀ w, (wiring h.net).effects h.pending = some w →
    Settled h w

omit [DecidableEq T] in
theorem Settling.quiet (hi : Settling h) (hq : h.Quiet) : Settled h (wiring h.net) := by
  obtain ⟨hp, hpan, hf⟩ := hq
  refine hi hpan hf _ ?_
  rw [hp]
  rfl

theorem Settling.step (hi : Settling h) (hm : Moved G h m h') : Settling h' := by
  intro hpan hf w hw
  cases hm with
  | traffic hl hs =>
    simp only [traffic_wiring hl hs] at hw
    exact (hi hpan (step_fatal hs) w hw).net ..
  | panic hp => simp at hpan
  | op hp hs =>
    refine (hi hpan (step_fatal hs) w ?_).net ..
    rw [hp, Wiring.effects, List.foldlM_cons, Option.bind_some, step_effect hs hf]
    exact hw
  | connect hq hn => exact (hi.quiet hq).connect hn hw
  | disconnect hq hn => exact (hi.quiet hq).disconnect hn hw
  | crash1 hq hn => exact (hi.quiet hq).crash1 hn hw
  | start1 hq hn => exact (hi.quiet hq).start1 hn hw

theorem settling_run {n : Nat} {ms : List (Move E V T)}
    (hr : Run (Harness.Steps G) (newConfig n) ms h) : Settling h := by
  refine hr.invariant (fun hi hs => hi.step (steps_moved hs)) fun _ _ w hw => ?_
  cases hw
  exact settled_new n

/-! ## Ends that stay disabled -/

/-- `e` is disabled, and stays so as long as no server in `P` is connected. -/
structure Barred (P : Nat → Prop) (e : E) (h : Harness E V T) : Prop where
  isolated : ∀ i, P i → h.connected i = false
  ends : h.net.ends e = true
  off : h.net.enabled e = false
  kept : ∀ op ∈ h.pending, op ≠ some (.enable e true) ∧ op ≠ some (.deleteEnd e)
  named : some (.makeEnd e) ∈ h.pending ∨ ∀ i < h.n, ∀ j < h.n, h.endname i j = some e → P i ∨ P j

section
variable {P : Nat → Prop} {e : E} {w w' : Wiring E}

omit [DecidableEq E] [DecidableEq T] in
theorem Barred.quiet (hb : Barred P e h) (hq : h.Quiet) :
    ∀ i < h.n, ∀ j < h.n, h.endname i j = some e → P i ∨ P j := by
  have hnamed := hb.named
  rw [hq.1] at hnamed
  exact hnamed.resolve_left List.not_mem_nil

omit [DecidableEq T] in
theorem effect_barred {l : Label E Nat V T} (hw : w.effect l = some w') (hends : w.ends e = true)
    (hoff : w.enabled e = false) (hl : l ≠ .enable e true ∧ l ≠ .deleteEnd e) :
    w'.ends e = true ∧ w'.enabled e = false ∧ l ≠ .makeEnd e := by
  cases l with
  | makeEnd e' =>
    have hne : e ≠ e' := by
      rintro rfl
      simp [Wiring.effect, hends] at hw
    simp only [Wiring.effect] at hw
    split at hw <;> cases hw
    simp [Function.update_of_ne hne, hends, hoff, Ne.symm hne]
  | deleteEnd e' =>
    have hne : e ≠ e' := by
      rintro rfl
      exact hl.2 rfl
    simp only [Wiring.effect] at hw
    split at hw <;> cases hw
    simp [Function.update_of_ne hne, hends, hoff]
  | enable e' b =>
    cases hw
    refine ⟨hends, ?_, by simp⟩
    by_cases he : e = e'
    · subst he
      cases b with
      | false => simp
      | true => exact absurd rfl hl.1
    · simp [he, hoff]
  | _ =>
    cases hw
    exact ⟨hends, hoff, by simp⟩

omit [DecidableEq E] [DecidableEq T] in
theorem enables_kept {names : List (Option E)} {b : Bool} {op : Op E V T}
    (hop : op ∈ enables b names) (hb : b = true → some e ∉ names) :
    op ≠ some (.enable e true) ∧ op ≠ some (.deleteEnd e) := by
  obtain ⟨o, ho, rfl⟩ := List.mem_map.mp hop
  cases o with
  | none => simp
  | some e' =>
    refine ⟨fun heq => ?_, by simp⟩
    simp only [Option.map_some, Option.some.injEq, Label.enable.injEq] at heq
    obtain ⟨rfl, rfl⟩ := heq
    exact hb rfl ho

omit [DecidableEq E] [DecidableEq T] in
theorem Barred.disconnect (hb : Barred P e h) (hq : h.Quiet) (i : Nat) :
    Barred P e (h.disconnect i) := by
  obtain ⟨names, hpend, -⟩ := disconnect_pending (h := h) (i := i)
  refine ⟨fun k hk => ?_, hb.ends, hb.off, fun op hop => ?_, .inr (hb.quiet hq)⟩
  · by_cases hki : k = i <;> simp [Harness.disconnect, hki, hb.isolated k hk]
  · rw [hpend] at hop
    exact enables_kept hop (by simp)

omit [DecidableEq E] [DecidableEq T] in
theorem Barred.crash1 (hb : Barred P e h) (hq : h.Quiet) (i : Nat) : Barred P e (h.crash1 i) := by
  have hd := hb.disconnect hq i
  refine ⟨hd.isolated, hd.ends, hd.off, fun op hop => ?_, ?_⟩
  · rcases List.mem_append.mp hop with hop | hop
    · exact hd.kept op hop
    · rw [List.mem_singleton.mp hop]
      simp
  · rcases hd.named with hmem | hnamed
    · exact .inl (List.mem_append_left _ hmem)
    · exact .inr hnamed

omit [DecidableEq E] [DecidableEq T] in
theorem Barred.connect (hb : Barred P e h) (hq : h.Quiet) {i : Nat} (hi : i < h.n) (hP : ¬ P i) :
    Barred P e (h.connect i) := by
  obtain ⟨names, hpend, hmem⟩ := connect_pending (h := h) (i := i)
  have hnamed := hb.quiet hq
  have hoff : ∀ k, P k → (h.connect i).connected k = false := by
    intro k hk
    have hki : k ≠ i := by
      rintro rfl
      exact hP hk
    simp [Harness.connect, hki, hb.isolated k hk]
  refine ⟨hoff, hb.ends, hb.off, fun op hop => ?_, .inr hnamed⟩
  rw [hpend] at hop
  refine enables_kept hop fun _ he => ?_
  obtain ⟨j, hj, hc, hname⟩ := (hmem _).mp he
  have hPj : P j := by
    rcases hname with hname | hname
    · exact (hnamed i hi j hj hname).resolve_left hP
    · exact (hnamed j hj i hi hname).resolve_right hP
  rw [hoff j hPj] at hc
  cases hc

omit [DecidableEq T] in
theorem Barred.start1 (hb : Barred P e h) (hq : h.Quiet) {i : Nat} {names : Nat → E} {server : Nat}
    {svc : Service T} :
    Barred P e (h.start1 i names server svc) := by
  have hc := hb.crash1 hq i
  have hnamed := hb.quiet hq
  refine ⟨hc.isolated, hc.ends, hc.off, fun op hop => ?_, ?_⟩
  · rcases List.mem_append.mp hop with hop | hop
    · exact hc.kept op hop
    · simp only [Harness.startOps, List.mem_append, List.mem_flatMap, List.mem_cons,
        List.not_mem_nil, or_false] at hop
      rcases hop with ⟨j, -, rfl | rfl⟩ | rfl | rfl | rfl <;> simp
  · by_cases hnew : ∃ j < h.n, names j = e
    · obtain ⟨j, hj, rfl⟩ := hnew
      refine .inl (List.mem_append_right
        _ (List.mem_append_left _ (List.mem_flatMap.mpr ⟨j, ?_, by simp⟩)))
      simpa [Harness.crash1, Harness.disconnect] using hj
    · right
      intro k hk j hj he
      by_cases hki : k = i
      · subst hki
        refine absurd ⟨j, hj, ?_⟩ hnew
        simpa [Harness.start1, Harness.endname] using he
      · refine hnamed k hk j hj ?_
        simpa [Harness.start1, Harness.crash1, Harness.disconnect, Harness.endname, hki] using he

theorem Barred.step (hb : Barred P e h) (hm : Moved G h m h') (hP : ∀ i, P i → m ≠ .connect i)
    (hf : h'.net.fatal = none) :
    Barred P e h' := by
  cases hm with
  | traffic hl hs =>
    have hw := traffic_wiring hl hs
    refine ⟨hb.isolated, ?_, ?_, hb.kept, hb.named⟩
    · exact (congrFun (congrArg Wiring.ends hw) e).trans hb.ends
    · exact (congrFun (congrArg Wiring.enabled hw) e).trans hb.off
  | panic hp =>
    have hkept := hb.kept
    have hnamed := hb.named
    rw [hp] at hkept hnamed
    refine ⟨hb.isolated, hb.ends, hb.off, fun op hop => hkept op (List.mem_cons_of_mem _ hop), ?_⟩
    exact hnamed.imp_left fun hmem => (List.mem_cons.mp hmem).resolve_left (by simp)
  | op hp hs =>
    have hkept := hb.kept
    have hnamed := hb.named
    rw [hp] at hkept hnamed
    obtain ⟨hends, hoff, hne⟩ :=
      effect_barred (step_effect hs hf) hb.ends hb.off (by simpa using hkept _ List.mem_cons_self)
    refine ⟨hb.isolated, hends, hoff, fun op hop => hkept op (List.mem_cons_of_mem _ hop), ?_⟩
    exact hnamed.imp_left fun hmem => (List.mem_cons.mp hmem).resolve_left
      (by simpa using Ne.symm hne)
  | connect hq hi => exact hb.connect hq hi fun hPi => hP _ hPi rfl
  | disconnect hq hi => exact hb.disconnect hq _
  | crash1 hq hi => exact hb.crash1 hq _
  | start1 hq hi => exact hb.start1 hq

/-! ## Calls on such an end -/

/-- No server has been chosen for the request. -/
def Unread (k : Call E Nat V T) : Prop := k.handler = .unborn ∧ ∀ t, k.proc ≠ .connected t

/-- No reply of a handler is on its way, and none has come. -/
def Unanswered (k : Call E Nat V T) : Prop :=
  k.client ≠ .returned true ∧ ∀ m ∈ k.pending, m.ok = false

section
variable {s s' : Network E Nat V T} {k k' : Call E Nat V T} {a : Action V} {l : Label E Nat V T}
    {c : Nat}

omit [DecidableEq E] [DecidableEq T] in
theorem unread_act (ha : Acted G s k a k') (hoff : s.readEndnameInfo k.req.endname = none)
    (hk : Unread k) :
    Unread k' ∧ a.dispatched = none := by
  obtain ⟨hh, hp⟩ := hk
  cases ha with
  | connected hq ht =>
    rw [hoff] at ht
    cases ht
  | dropRequest hq | launch hq => exact absurd hq (hp _)
  | dispatch hq | died hq | finish hq | drain hq | answer _ hq =>
    rw [hh] at hq
    cases hq
  | reply hq hw hrec | fire hq hw hrec => cases hrec <;> exact ⟨⟨hh, by simp [hp]⟩, rfl⟩
  | abort | alive => exact ⟨⟨hh, hp⟩, rfl⟩
  | _ => exact ⟨⟨hh, by simp⟩, rfl⟩

omit [DecidableEq E] [DecidableEq T] in
theorem unanswered_act (ha : Acted G s k a k') (hoff : s.enabled k.req.endname = false)
    (hk : Unanswered k) : Unanswered k' := by
  obtain ⟨hclient, hpend⟩ := hk
  have hgood : ∀ m ∈ a.replied.toList ++ k'.pending, m.ok = false := by
    intro m hm
    by_contra hok
    rw [Bool.not_eq_false] at hok
    rcases ha.pending hm hok with hm | ⟨t, -, halive⟩
    · rw [hpend m hm] at hok
      cases hok
    · simp [Network.isServerDead, hoff] at halive
  have hreplied : ∀ m, a.replied = some m → m.ok = false := fun m hm => hgood m (by simp [hm])
  refine ⟨?_, fun m hm => hgood m (List.mem_append_right _ hm)⟩
  cases ha with
  | reply hq hw hrec | fire hq hw hrec =>
    cases hrec with
    | decoded hok =>
      have hbad := hreplied _ rfl
      rw [hok] at hbad
      cases hbad
    | _ => simp
  | send | abort => simp
  | _ => exact hclient

/-- Call `c` after a step while its end `e` is disabled. -/
theorem call_barred (hs : step G s l = some s') (hoff : s.enabled e = false)
    (hk' : s'.calls c = some k') (he : k'.req.endname = e) :
    s.calls c = none ∧ Unread k' ∧ Unanswered k' ∧ l.on c = none ∨
      ∃ k, s.calls c = some k ∧ k.req.endname = e ∧
      (Unread k → Unread k' ∧ ∀ a, l.on c = some a → a.dispatched = none) ∧
        (Unanswered k → Unanswered k') := by
  cases step_call (c := c) hs with
  | other hon hc ho =>
    right
    refine ⟨k', hc ▸ hk', he, fun hu => ⟨hu, fun a ha => ?_⟩, id⟩
    rw [hon] at ha
    cases ha
  | made e' m args reply hl hn hc =>
    left
    rw [hc] at hk'
    cases hk'
    subst hl
    exact ⟨hn, ⟨rfl, by simp [newCall]⟩, ⟨by simp [newCall], by simp [newCall, Call.pending]⟩, rfl⟩
  | act a k k₁ s₁ hl hk ha hs' =>
    right
    subst hl hs'
    rw [setCall_self] at hk'
    cases hk'
    have hacted := (act_spec ha).2
    rw [hacted.req] at he
    subst he
    refine ⟨k, hk, rfl, fun hu => ?_, unanswered_act hacted hoff⟩
    obtain ⟨hu', hdisp⟩ := unread_act hacted (Network.Disconnected.read (.inl hoff)) hu
    refine ⟨hu', fun a' ha' => ?_⟩
    simp only [Label.on, if_true, Option.some.injEq] at ha'
    exact ha' ▸ hdisp

/-! ## Calls along a run -/

def Move.rpc : Move E V T → Option (Label E Nat V T)
  | .traffic l => some l
  | _ => none

def rpcs (ms : List (Move E V T)) : List (Label E Nat V T) := ms.filterMap Move.rpc

/-- Call `c` after the moves `ms` from `h` to `h'`, if its end is `e`. -/
structure Silent (h : Harness E V T) (ms : List (Move E V T)) (h' : Harness E V T) (e : E)
    (c : Nat) : Prop where
  unmade : h'.net.calls c = none → acts c (rpcs ms) = []
  unread : ∀ k', h'.net.calls c = some k' → k'.req.endname = e →
    (∀ k, h.net.calls c = some k → Unread k) →
    Unread k' ∧ dispatches c (rpcs ms) = []
  unanswered : ∀ k', h'.net.calls c = some k' → k'.req.endname = e →
    (∀ k, h.net.calls c = some k → Unanswered k) →
    Unanswered k'

variable {ms : List (Move E V T)} {u : Harness E V T}

omit [DecidableEq E] [DecidableEq T] in
theorem acts_rpcs (hl : ∀ l, m.rpc = some l → l.on c = none) :
    acts c (rpcs (ms ++ [m])) = acts c (rpcs ms) := by
  rw [rpcs, filterMap_snoc, acts, List.filterMap_append]
  cases hm : m.rpc with
  | none => exact List.append_nil _
  | some l =>
    simp [hl l hm]
    rfl

omit [DecidableEq E] [DecidableEq T] in
theorem Silent.keep (hs : Silent h ms u e c) (hnet : h'.net = u.net) (hm : m.rpc = none) :
    Silent h (ms ++ [m]) h' e c := by
  have hrpcs : rpcs (ms ++ [m]) = rpcs ms := by simp [rpcs, hm]
  refine ⟨?_, ?_, ?_⟩ <;> simp only [hnet, hrpcs]
  · exact hs.unmade
  · exact hs.unread
  · exact hs.unanswered

theorem Silent.net (hs : Silent h ms u e c) (hstep : Labrpc.step G u.net l = some h'.net)
    (hoff : u.net.enabled e = false) (hm : ∀ l', m.rpc = some l' → l' = l) :
    Silent h (ms ++ [m]) h' e c := by
  have hacts : l.on c = none → acts c (rpcs (ms ++ [m])) = acts c (rpcs ms) := by
    intro hon
    refine acts_rpcs fun l' hl' => ?_
    rw [hm l' hl']
    exact hon
  refine ⟨fun hnone => ?_, fun k' hk' he hu => ?_, fun k' hk' he hu => ?_⟩
  · cases step_call (c := c) hstep with
    | other hon hc ho =>
      rw [hacts hon]
      exact hs.unmade (hc ▸ hnone)
    | made e' m' args reply hl hn hc => simp [hc] at hnone
    | act a k k' s₁ hl hk ha hs' => simp [hs', setCall_self] at hnone
  · rcases call_barred hstep hoff hk' he with ⟨hnone, hu', -, hon⟩ | ⟨k, hk, hke, hread, -⟩
    · refine ⟨hu', ?_⟩
      rw [dispatches, hacts hon, hs.unmade hnone]
      rfl
    · obtain ⟨huk, hdisp⟩ := hs.unread k hk hke hu
      obtain ⟨hu', ha⟩ := hread huk
      refine ⟨hu', ?_⟩
      cases hon : l.on c with
      | none =>
        rw [dispatches, hacts hon]
        exact hdisp
      | some a =>
        rw [rpcs, filterMap_snoc, dispatches_append]
        cases hr : m.rpc with
        | none =>
          rw [Option.toList, List.append_eq_nil_iff]
          exact ⟨hdisp, rfl⟩
        | some l' =>
          obtain rfl := hm l' hr
          rw [Option.toList, List.append_eq_nil_iff]
          exact ⟨hdisp, by simp [dispatches, acts, hon, ha a hon]⟩
  · rcases call_barred hstep hoff hk' he with ⟨-, -, ha', -⟩ | ⟨k, hk, hke, -, hans⟩
    · exact ha'
    · exact hans (hs.unanswered k hk hke hu)

theorem silent_step (hs : Silent h ms u e c) (hb : u.net.fatal = none → Barred P e u)
    (hm : Moved G u m h') :
    Silent h (ms ++ [m]) h' e c := by
  cases hm with
  | traffic hl hstep =>
    refine hs.net hstep (hb (step_fatal hstep)).off fun l' hl' => ?_
    simpa [Move.rpc] using hl'.symm
  | op hp hstep =>
    exact hs.net hstep (hb (step_fatal hstep)).off fun l' hl' => by simp [Move.rpc] at hl'
  | panic | connect | disconnect | crash1 | start1 => exact hs.keep rfl rfl

theorem barred_run (hb : Barred P e h) (hr : Run (Harness.Steps G) h ms h')
    (hP : ∀ i, P i → .connect i ∉ ms) :
    (h'.net.fatal = none → Barred P e h') ∧ ∀ c, Silent h ms h' e c := by
  induction hr with
  | nil =>
    exact ⟨fun _ => hb, fun c => ⟨fun _ => rfl, fun k hk _ hu => ⟨hu k hk, rfl⟩,
      fun k hk _ hu => hu k hk⟩⟩
  | @snoc ms u m h' _ hs ih =>
    obtain ⟨hbar, hsil⟩ := ih fun i hi hmem => hP i hi (List.mem_append_left _ hmem)
    have hm := steps_moved hs
    refine ⟨fun hf => ?_, fun c => silent_step (hsil c) hbar hm⟩
    have hfatal : u.net.fatal = none := by
      cases hm with
      | traffic hl hstep | op hp hstep => exact step_fatal hstep
      | _ => exact hf
    refine (hbar hfatal).step hm (fun i hi heq => hP i hi ?_) hf
    simp [heq]

end

/-! ## Partitions -/

/-- No request is handed to a server through the end `e`, and no reply comes back,
unless the network had gone that far with it at the state `h`. -/
structure Isolated (h : Harness E V T) (ms : List (Move E V T)) (h' : Harness E V T) (e : E) :
    Prop where
  requests : ∀ c k', h'.net.calls c = some k' → k'.req.endname = e →
    (∀ k, h.net.calls c = some k → Unread k) →
    dispatches c (rpcs ms) = []
  replies : ∀ c k', h'.net.calls c = some k' → k'.req.endname = e →
    (∀ k, h.net.calls c = some k → Unanswered k) →
    k'.client ≠ .returned true

structure Partitions (G : Gob V T) (h : Harness E V T) : Prop where
  reads : ∀ i < h.n, ∀ j < h.n, ∀ e, h.endname i j = some e → h.net.readEndnameInfo e =
    if h.connected i = true ∧ h.connected j = true then
      (h.net.servers j).map fun server => ⟨j, server, h.net.reliable, h.net.longReordering⟩
    else none
  others : ∀ e, (∀ i < h.n, ∀ j < h.n, h.endname i j ≠ some e) → h.net.readEndnameInfo e = none
  running : ∀ i, (h.net.servers i).isSome = h.rafts i
  -- No server of `P` is connected; if there is none in `P`, the end is one that a later
  -- `start1` replaced.
  isolates : ∀ P : Nat → Prop, (∀ i, P i → h.connected i = false) → ∀ e, h.net.ends e = true →
    (∀ i < h.n, ∀ j < h.n, h.endname i j = some e → P i ∨ P j) →
    ∀ ms h', Run (Harness.Steps G) h ms h' → (∀ i, P i → .connect i ∉ ms) → Isolated h ms h' e

/-- Between two moves of the test, whatever the traffic was so far. -/
theorem harness_partitions {n : Nat} {ms : List (Move E V T)}
    (hr : Run (Harness.Steps G) (newConfig n) ms h) (hq : h.Quiet) :
    Partitions G h := by
  have hs := (settling_run hr).quiet hq
  have hoff : ∀ e, (∀ i < h.n, ∀ j < h.n, h.endname i j = some e → h.connected i = true →
    h.connected j = false) →
      h.net.enabled e = false := by
    intro e hno
    by_contra hen
    obtain ⟨i, hi, j, hj, he, hci, hcj⟩ := (hs.enabled e).mp (Bool.not_eq_false _ ▸ hen)
    rw [hno i hi j hj he hci] at hcj
    cases hcj
  refine ⟨fun i hi j hj e he => ?_, fun e he => ?_, hs.servers,
    fun P hP e hends hnamed ms' h' hr' hconn => ?_⟩
  · have hto : h.net.connections e = some j := (hs.made e i hi j hj he).2
    split
    · rename_i hc
      have hen : h.net.enabled e = true := (hs.enabled e).mpr ⟨i, hi, j, hj, he, hc⟩
      rw [Network.readEndnameInfo, if_pos hen, hto]
      cases hserver : h.net.servers j <;> simp [hserver]
    · rename_i hc
      refine Network.Disconnected.read (.inl (hoff e fun i' hi' j' hj' he' hci => ?_))
      obtain ⟨rfl, rfl⟩ := hs.inj e i hi j hj i' hi' j' hj' he he'
      simpa [hci] using hc
  · exact Network.Disconnected.read (.inl (hoff e fun i hi j hj hij => absurd hij (he i hi j hj)))
  · have hb : Barred P e h := by
      refine ⟨hP, hends, hoff e fun i hi j hj he hci => ?_, fun op hop => ?_, .inr hnamed⟩
      · rcases hnamed i hi j hj he with hPi | hPj
        · rw [hP i hPi] at hci
          cases hci
        · exact hP j hPj
      · rw [hq.1] at hop
        cases hop
    obtain ⟨-, hsil⟩ := barred_run hb hr' hconn
    refine ⟨fun c k' hk' he hu => ((hsil c).unread k' hk' he hu).2, fun c k' hk' he hu => ?_⟩
    exact ((hsil c).unanswered k' hk' he hu).1

end

end

/-- The tester makes two servers and connects them, and server 1 is started again. -/
def restart : List (Move Nat (BitVec 8) Unit) :=
  let svc : Service Unit := ⟨fun _ => some ()⟩
  (.start1 0 (fun j => j) 0 svc :: List.replicate 8 .proceed) ++
    (.start1 1 (fun j => 2 + j) 1 svc :: List.replicate 9 .proceed) ++
    (.connect 0 :: List.replicate 2 .proceed) ++ (.connect 1 :: List.replicate 4 .proceed) ++
    (.start1 1 (fun j => 4 + j) 2 svc :: List.replicate 12 .proceed)

theorem harness_partitions_restart : ∃ h, Run (Harness.Steps byteGob) (newConfig 2) restart h ∧
    Partitions byteGob h ∧
    h.net.readEndnameInfo 0 = some ⟨0, 0, true, false⟩ ∧ h.net.ends 2 = true ∧
    h.net.readEndnameInfo 2 = none := by
  obtain ⟨h, hh, hq, hread⟩ : ∃ h, restart.foldlM (fun h m => h.step byteGob m) (newConfig 2) =
    some h ∧ h.Quiet ∧
      h.net.readEndnameInfo 0 = some ⟨0, 0, true, false⟩ ∧ h.net.ends 2 = true ∧
      h.net.readEndnameInfo 2 = none :=
    ⟨_, rfl, ⟨rfl, rfl, rfl⟩, rfl, rfl, rfl⟩
  exact ⟨h, Run.of_foldlM hh, harness_partitions (Run.of_foldlM hh) hq, hread⟩

end Csc412.Raft
