import Mathlib.Algebra.GroupWithZero.Nat
import Csc412.Labrpc.CallSound

/-!
# Delivery of requests and replies

`CallInv` ties the record of a call to the trace, whatever the other calls and the
configuration of the network do meanwhile: who was asked to handle it, what the
handler left, and what was sent back on its `replyCh`.
-/

namespace Csc412.Labrpc

open Lib

section
variable {E N V T : Type} {G : Gob V T}

/-! ## What a step does to a call -/

theorem setCall_self (s : Network E N V T) (c : Nat) (k : Call E N V T) :
    (s.setCall c k).calls c = some k :=
  Function.update_self ..

variable [DecidableEq E] [DecidableEq N] [DecidableEq T]

def Steps (G : Gob V T) (s : Network E N V T) (l : Label E N V T) (s' : Network E N V T) : Prop :=
  step G s l = some s'

variable {s s' : Network E N V T} {l : Label E N V T} {c : Nat}

theorem steps_functional {u u' : Network E N V T} {ls : List (Label E N V T)}
    (h : Run (Steps G) s ls u) (h' : Run (Steps G) s ls u') : u = u' :=
  Run.functional (fun _ _ _ _ h₁ h₂ => Option.some.inj (h₁.symm.trans h₂)) h h'

def newCall (G : Gob V T) (e : E) (m : String) (args reply : V) : Call E N V T :=
  ⟨⟨e, m, G.typeOf args, (G.encode args).1⟩, reply, .sending, .unborn, .unborn, false, none⟩

/-- A step leaves call `c` alone, makes it, or is an action of its goroutines. -/
inductive CallStep (G : Gob V T) (c : Nat) (s : Network E N V T) (l : Label E N V T)
    (s' : Network E N V T) : Prop
  | other : l.on c = none → s'.calls c = s.calls c →
    (l.opens c = none ∨ s'.fatal ≠ none ∧ s.calls c = none) → CallStep G c s l s'
  | made (e m args reply) : l = .call c e m args reply → s.calls c = none →
    s'.calls c = some (newCall G e m args reply) →
      CallStep G c s l s'
  | act (a k k' s₁) : l = .act c a → s.calls c = some k → s.act G k a = some (s₁, k') →
    s' = s₁.setCall c k' →
      CallStep G c s l s'

theorem step_call (h : step G s l = some s') : CallStep G c s l s' := by
  have hf : s.fatal.isSome = false := by
    by_contra hf
    simp [step, hf] at h
  unfold step at h
  rw [if_neg (by simp [hf])] at h
  cases l with
  | call c' e m args reply =>
    simp only at h
    split at h
    · cases h
    · rename_i hn
      cases h
      by_cases hc : c' = c
      · subst hc
        have hnone : s.calls c' = none := by simpa using hn
        by_cases he : (G.encode args).2 = true
        · refine .made e m args reply rfl hnone ?_
          simp [Network.call, he, Network.setCall, newCall]
        · refine .other rfl ?_ (.inr ⟨?_, hnone⟩)
          · simp [Network.call, he, Network.fail]
          · simp [Network.call, he, Network.fail]
      · refine .other rfl ?_ (.inl (by simp [Label.opens, hc]))
        unfold Network.call
        dsimp only
        split
        · exact Function.update_of_ne (Ne.symm hc) _ _
        · rfl
  | act c' a =>
    simp only at h
    split at h
    · cases h
    · rename_i k hk
      obtain ⟨⟨s₁, k'⟩, ha, rfl⟩ := Option.map_eq_some_iff.mp h
      by_cases hc : c' = c
      · subst hc
        exact .act a k k' s₁ rfl hk ha rfl
      · refine .other (by simp [Label.on, hc]) ?_ (.inl rfl)
        rw [Network.setCall, ← (act_spec ha).1.calls]
        exact Function.update_of_ne (Ne.symm hc) _ _
  | _ =>
    refine .other rfl ?_ (.inl rfl)
    simp only at h
    first
    | (cases h
       first
       | rfl
       | (unfold Network.makeEnd; split <;> rfl)
       | (unfold Network.deleteEnd; split <;> rfl)
       | (unfold Network.cleanup; split <;> rfl))
    | (split at h <;> cases h; rfl)
    | (obtain ⟨_, -, rfl⟩ := Option.map_eq_some_iff.mp h; rfl)

def WasRead (G : Gob V T) (c : Nat) (e : E) (t : Target N) (ls : List (Label E N V T)) : Prop :=
  ∃ l₁ u, l₁ ++ [.act c .read] <+: ls ∧ Run (Steps G) makeNetwork l₁ u ∧
    u.readEndnameInfo e = some t

/-- In the run `ls` there was a moment, after the handler had left `v`, at which the end
was enabled and the server was registered. -/
def WasAlive (G : Gob V T) (c : Nat) (e : E) (t : Target N) (v : V) (ls : List (Label E N V T)) :
    Prop :=
  ∃ l₁ u, l₁ <+: ls ∧ Run (Steps G) makeNetwork l₁ u ∧ returns c l₁ = [v] ∧ u.enabled e = true ∧
    u.servers t.servername = some t.server

/-- A positive reply comes from the handler of a server that was alive afterwards. -/
def Approved (G : Gob V T) (c : Nat) (k : Call E N V T) (ls : List (Label E N V T)) (m : ReplyMsg) :
    Prop :=
  ∃ t v, k.handler = .done t.server ∧ returns c ls = [v] ∧ m = ⟨true, (G.encode v).1⟩ ∧
    WasRead G c k.req.endname t ls ∧ WasAlive G c k.req.endname t v ls

structure CallInv (G : Gob V T) (c : Nat) (ls : List (Label E N V T)) (k : Call E N V T) :
    Prop where
  handler : HandlerOk G (dispatches c ls) (returns c ls) k.handler
  sent : RepliesOk k (replies c ls)
  proc : ProcOk G (returns c ls) k
  read : ∀ t, k.proc.target = some t → WasRead G c k.req.endname t ls
  approved : ∀ m ∈ replies c ls ++ k.pending, m.ok = true → Approved G c k ls m
  origin : ∃ args reply, opened c ls = [(k.req.endname, k.req.svcMeth, args, reply)] ∧
    k.req.argsType = G.typeOf args ∧ k.req.args = (G.encode args).1 ∧ VarOk G k reply (replies c ls)

section
variable {k k' : Call E N V T} {a : Action V} {ls : List (Label E N V T)} {e : E} {t : Target N}

theorem WasRead.later (h : WasRead G c e t ls) : WasRead G c e t (ls ++ [l]) := by
  obtain ⟨l₁, u, hpre, hrest⟩ := h
  exact ⟨l₁, u, hpre.trans (List.prefix_append ..), hrest⟩

theorem WasAlive.later {v : V} (h : WasAlive G c e t v ls) : WasAlive G c e t v (ls ++ [l]) := by
  obtain ⟨l₁, u, hpre, hrest⟩ := h
  exact ⟨l₁, u, hpre.trans (List.prefix_append ..), hrest⟩

theorem Approved.later {m : ReplyMsg} (h : Approved G c k ls m) (hp : ProcOk G (returns c ls) k)
    (ha : Acted G s k a k') :
    Approved G c k' (ls ++ [.act c a]) m := by
  obtain ⟨t, v, hd, hv, hm, hread, halive⟩ := h
  obtain ⟨hd', hr, -⟩ := ha.handler_done hp hd
  refine ⟨t, v, hd', ?_, hm, ?_, ?_⟩
  · simpa [returns_act, hr] using hv
  · rw [ha.req]
    exact hread.later
  · rw [ha.req]
    exact halive.later

theorem CallInv.read_step (h : CallInv G c ls k) (hr : Run (Steps G) makeNetwork ls s)
    (ha : Acted G s k a k') (t : Target N) (ht : k'.proc.target = some t) :
    WasRead G c k'.req.endname t (ls ++ [.act c a]) := by
  have hold : ∀ {pc}, k.proc = pc → pc.target = some t →
      WasRead G c k.req.endname t (ls ++ [.act c a]) := by
    rintro pc rfl ht
    exact (h.read t ht).later
  cases ha with
  | connected hp hi =>
    cases ht
    exact ⟨ls, s, List.prefix_rfl, hr, hi⟩
  | launch hp | answer hp | dead hp => exact hold hp ht
  | reply hp hw hrec => cases hrec <;> cases ht
  | fire hp hw hrec => cases hrec <;> exact hold rfl ht
  | abort | dispatch | died | finish | drain | alive => exact hold rfl ht
  | _ => cases ht

theorem CallInv.approved_step (h : CallInv G c ls k) (hr : Run (Steps G) makeNetwork ls s)
    (ha : Acted G s k a k') (m : ReplyMsg) (hm : m ∈ replies c (ls ++ [.act c a]) ++ k'.pending)
    (hok : m.ok = true) :
    Approved G c k' (ls ++ [.act c a]) m := by
  rw [replies_act, List.append_assoc] at hm
  have hsplit : m ∈ replies c ls ++ k.pending ∨
      ∃ t, k.proc = .leaving t (some m) ∧ s.isServerDead k.req.endname t.servername t.server =
          false := by
    rcases List.mem_append.mp hm with hm | hm
    · exact .inl (List.mem_append_left _ hm)
    · exact (ha.pending hm hok).imp_left (List.mem_append_right _)
  rcases hsplit with hmem | ⟨t, hp, hal⟩
  · exact (h.approved m hmem hok).later h.proc ha
  · -- the last look at the network is the moment that the reply is approved
    have hproc := h.proc
    rw [ProcOk, hp] at hproc
    obtain ⟨hd, v, hv, hm'⟩ := hproc
    refine Approved.later ⟨t, v, hd, hv, hm', h.read t (by rw [hp]; rfl), ls, s, List.prefix_rfl,
      hr, hv, ?_⟩ h.proc ha
    simpa [Network.isServerDead] using hal

theorem CallInv.act (h : CallInv G c ls k) (hr : Run (Steps G) makeNetwork ls s)
    (ha : Acted G s k a k') :
    CallInv G c (ls ++ [.act c a]) k' := by
  refine ⟨?_, ?_, ?_, h.read_step hr ha, h.approved_step hr ha, ?_⟩
  · rw [dispatches_act, returns_act]
    exact h.handler.step h.proc ha
  · rw [replies_act]
    exact h.sent.step ha
  · rw [returns_act]
    exact h.proc.step h.handler h.sent ha
  · obtain ⟨args, reply, ho, ht, hargs, hvar⟩ := h.origin
    rw [ha.req, replies_act]
    refine ⟨args, reply, ?_, ht, hargs, hvar.step h.sent ha⟩
    simpa [opened_snoc, Label.opens] using ho

theorem CallInv.other (h : CallInv G c ls k) (hl : l.on c = none) (ho : l.opens c = none) :
    CallInv G c (ls ++ [l]) k := by
  have hacts : acts c (ls ++ [l]) = acts c ls := acts_other hl
  have hopen : opened c (ls ++ [l]) = opened c ls := by simp [opened_snoc, ho]
  obtain ⟨h₁, h₂, h₃, h₄, h₅, h₆⟩ := h
  unfold dispatches returns at h₁
  unfold replies at h₂ h₅ h₆
  unfold returns at h₃
  refine ⟨?_, ?_, ?_, fun t ht => (h₄ t ht).later, fun m hm hok => ?_, ?_⟩
  · rw [dispatches, returns, hacts]
    exact h₁
  · rw [replies, hacts]
    exact h₂
  · rw [returns, hacts]
    exact h₃
  · rw [replies, hacts] at hm
    obtain ⟨t, v, hd, hv, hm', hread, halive⟩ := h₅ m hm hok
    refine ⟨t, v, hd, ?_, hm', hread.later, halive.later⟩
    rw [returns, hacts]
    exact hv
  · rw [hopen, replies, hacts]
    exact h₆

theorem CallInv.made {m : String} {args reply : V} (ha : acts c ls = []) (ho : opened c ls = []) :
    CallInv G c (ls ++ [.call c e m args reply]) (newCall G e m args reply) := by
  have hacts : acts c (ls ++ [.call c e m args reply]) = [] := by rw [acts_other rfl, ha]
  refine ⟨?_, ?_, ⟨rfl, rfl⟩, fun t ht => (by cases ht), fun x hx => ?_, args, reply, ?_, rfl,
    rfl, rfl⟩
  · rw [dispatches, returns, hacts]
    exact ⟨rfl, rfl⟩
  · rw [replies, hacts]
    exact ⟨rfl, rfl, rfl⟩
  · rw [replies, hacts] at hx
    cases hx
  · simp [opened_snoc, ho, Label.opens, newCall]

/-! ## Along a run -/

structure NetInv (G : Gob V T) (ls : List (Label E N V T)) (s : Network E N V T) : Prop where
  calls : ∀ c k, s.calls c = some k → CallInv G c ls k
  unmade : ∀ c, s.calls c = none → acts c ls = [] ∧ (s.fatal = none → opened c ls = [])

theorem step_fatal (h : step G s l = some s') : s.fatal = none := by
  by_contra hf
  have hsome : s.fatal.isSome = true := by
    cases hs : s.fatal with
    | none => exact absurd hs hf
    | some => rfl
  simp [step, hsome] at h

theorem netInv_step (h : NetInv G ls s) (hr : Run (Steps G) makeNetwork ls s)
    (hs : step G s l = some s') :
    NetInv G (ls ++ [l]) s' := by
  have hf := step_fatal hs
  constructor
  · intro c k' hk'
    cases step_call (c := c) hs with
    | other hon hc ho =>
      rw [hc] at hk'
      rcases ho with ho | ⟨-, hn⟩
      · exact (h.calls c k' hk').other hon ho
      · rw [hn] at hk'
        cases hk'
    | made e m args reply hl hn hc =>
      subst hl
      rw [hc] at hk'
      cases hk'
      exact CallInv.made (h.unmade c hn).1 ((h.unmade c hn).2 hf)
    | act a k k₁ s₁ hl hk ha hs' =>
      subst hl hs'
      rw [setCall_self] at hk'
      cases hk'
      exact (h.calls c k hk).act hr (act_spec ha).2
  · intro c hn
    cases step_call (c := c) hs with
    | other hon hc ho =>
      rw [hc] at hn
      obtain ⟨h₁, h₂⟩ := h.unmade c hn
      refine ⟨by rw [acts_other hon, h₁], fun hf' => ?_⟩
      rcases ho with ho | ⟨hf'', -⟩
      · simp [opened_snoc, ho, h₂ hf]
      · exact absurd hf' hf''
    | made e m args reply hl hn' hc =>
      rw [hc] at hn
      cases hn
    | act a k k₁ s₁ hl hk ha hs' =>
      rw [hs', setCall_self] at hn
      cases hn

theorem netInv_run (hr : Run (Steps G) makeNetwork ls s) : NetInv G ls s := by
  induction hr with
  | nil => exact ⟨fun c k hk => (by cases hk), fun c _ => ⟨rfl, fun _ => rfl⟩⟩
  | snoc hr hs ih => exact netInv_step ih hr hs

/-! ## Servers -/

def Label.servers : Label E N V T → (N → Option Nat) → N → Option Nat
  | .addServer n o, f => Function.update f n (some o)
  | .deleteServer n, f => Function.update f n none
  | _, f => f

structure ServerStep (s : Network E N V T) (l : Label E N V T) (s' : Network E N V T) : Prop where
  servers : s'.servers = l.servers s.servers
  exist : ∀ o, (s.objects o).isSome → (s'.objects o).isSome
  added : ∀ n o, l = .addServer n o → (s.objects o).isSome
  counts : ∀ o, s'.countOf o = s.countOf o + if l.serves = some o then 1 else 0

omit [DecidableEq E] [DecidableEq N] [DecidableEq T] in
theorem unserved_count (hl : l.serves = none) (o : Nat) (x : BitVec 64) :
    x = x + if l.serves = some o then 1 else 0 := by
  rw [hl, if_neg (Option.some_ne_none o).symm]
  exact (BitVec.add_zero x).symm

omit [DecidableEq E] [DecidableEq T] in
theorem ServerStep.same (h₁ : s'.servers = s.servers) (h₂ : s'.objects = s.objects)
    (hl : ∀ f, l.servers f = f) (ha : ∀ n o, l ≠ .addServer n o) (hs : l.serves = none) :
    ServerStep s l s' := by
  refine ⟨by rw [h₁, hl], fun o => by rw [h₂]; exact id, fun n o he => absurd he (ha n o),
    fun o => ?_⟩
  rw [Network.countOf, h₂]
  exact unserved_count hs o _

theorem step_server (h : step G s l = some s') : ServerStep s l s' := by
  have hf := step_fatal h
  unfold step at h
  rw [if_neg (by simp [hf])] at h
  cases l with
  | addServer n o =>
    simp only at h
    split at h <;> cases h
    rename_i ho
    refine ⟨rfl, fun _ => id, fun n' o' he => ?_, fun o' => unserved_count rfl o' _⟩
    cases he
    exact ho
  | deleteServer n =>
    cases h
    exact ⟨rfl, fun _ => id, fun _ _ he => (by cases he), fun o => unserved_count rfl o _⟩
  | makeServer o =>
    simp only at h
    split at h <;> cases h
    rename_i ho
    have hnone : s.objects o = none := by simpa using ho
    refine ⟨rfl, fun o' ho' => ?_, fun _ _ he => (by cases he), fun o' => ?_⟩
    · simp only [Network.makeServer, Function.update_apply]
      split
      · rfl
      · exact ho'
    · refine Eq.trans ?_ (unserved_count rfl o' _)
      simp only [Network.countOf, Network.makeServer, Function.update_apply]
      split
      · rename_i he
        rw [he, hnone]
        rfl
      · rfl
  | addService o name svc =>
    obtain ⟨srv, hsrv, rfl⟩ := Option.map_eq_some_iff.mp h
    refine ⟨rfl, fun o' ho' => ?_, fun _ _ he => (by cases he), fun o' => ?_⟩
    · simp only [Network.addService, Function.update_apply]
      split
      · rfl
      · exact ho'
    · refine Eq.trans ?_ (unserved_count rfl o' _)
      simp only [Network.countOf, Network.addService, Function.update_apply]
      split
      · rename_i he
        rw [he, hsrv]
        rfl
      · rfl
  | act c a =>
    simp only at h
    split at h
    · cases h
    · obtain ⟨⟨s₁, k'⟩, ha, rfl⟩ := Option.map_eq_some_iff.mp h
      have hkept := (act_spec ha).1
      refine ⟨hkept.servers, fun o ho => ?_, fun _ _ he => (by cases he), hkept.counts⟩
      exact (hkept.exist o).trans ho
  | call c e m args reply =>
    simp only at h
    split at h <;> cases h
    unfold Network.call
    dsimp only
    split <;> exact .same rfl rfl (fun _ => rfl) (by simp) rfl
  | makeEnd e =>
    cases h
    unfold Network.makeEnd
    split <;> exact .same rfl rfl (fun _ => rfl) (by simp) rfl
  | deleteEnd e =>
    cases h
    unfold Network.deleteEnd
    split <;> exact .same rfl rfl (fun _ => rfl) (by simp) rfl
  | cleanup =>
    cases h
    unfold Network.cleanup
    split <;> exact .same rfl rfl (fun _ => rfl) (by simp) rfl
  | stop =>
    simp only at h
    split at h <;> cases h
    exact .same rfl rfl (fun _ => rfl) (by simp) rfl
  | _ =>
    cases h
    exact .same rfl rfl (fun _ => rfl) (by simp) rfl

omit [DecidableEq E] [DecidableEq T] in
theorem registered_step (h : ∀ n o, s.servers n = some o → (s.objects o).isSome)
    (hs : ServerStep s l s') (n : N) (o : Nat) (hn : s'.servers n = some o) :
    (s'.objects o).isSome := by
  rw [hs.servers] at hn
  apply hs.exist
  cases l with
  | addServer n' o' =>
    simp only [Label.servers, Function.update_apply] at hn
    split at hn
    · cases hn
      exact hs.added n' o rfl
    · exact h n o hn
  | deleteServer n' =>
    simp only [Label.servers, Function.update_apply] at hn
    split at hn
    · cases hn
    · exact h n o hn
  | _ => exact h n o hn

theorem registered_run (hr : Run (Steps G) makeNetwork ls s) (n : N) (o : Nat)
    (hn : s.servers n = some o) :
    (s.objects o).isSome := by
  induction hr generalizing n o with
  | nil => cases hn
  | snoc _ hs ih => exact registered_step ih (step_server hs) n o hn

theorem counts_run (hr : Run (Steps G) makeNetwork ls s) (o : Nat) :
    s.countOf o = BitVec.ofNat 64 ((served ls).count o) := by
  induction hr with
  | nil => rfl
  | @snoc ls t l u _ hs ih =>
    rw [(step_server hs).counts, ih, served, served, filterMap_snoc, List.count_append,
      BitVec.ofNat_add]
    congr 1
    cases hl : l.serves with
    | none => rfl
    | some o' => by_cases ho : o' = o <;> simp [Option.toList, ho]

theorem getCount_run (hr : Run (Steps G) makeNetwork ls s) {n : N} {o : Nat}
    (hn : s.servers n = some o) :
    s.getCount n = some (BitVec.ofNat 64 ((served ls).count o)).toInt := by
  obtain ⟨rs, hrs⟩ := Option.isSome_iff_exists.mp (registered_run hr n o hn)
  have hcount := counts_run hr o
  rw [Network.countOf, hrs] at hcount
  simp only [Network.getCount, hn, hrs, Option.bind_eq_bind, Option.bind_some]
  exact congrArg (fun c => some c.toInt) hcount

theorem toInt_ofNat {n : Nat} (h : n < 2 ^ 63) : (BitVec.ofNat 64 n).toInt = n := by
  have htoNat : (BitVec.ofNat 64 n).toNat = n := by
    rw [BitVec.toNat_ofNat, Nat.mod_eq_of_lt (by omega)]
  rw [BitVec.toInt_eq_toNat_of_lt (by omega), htoNat]

/-! ## Requests that reach no server -/

/-- `processReq` found no server; a timer tells `Call` so, or has told it. -/
def Unserved (k : Call E N V T) : Prop :=
  k.handler = .unborn ∧ k.proc = .done ∧
    (k.client = .waiting ∧ k.timer = some failure ∨ k.client = .returned false)

omit [DecidableEq E] [DecidableEq N] [DecidableEq T] in
theorem Acted.unserved (ha : Acted G s k a k') (h : Unserved k) :
    Unserved k' ∧ a.dispatched = none := by
  obtain ⟨hh, hp, hc⟩ := h
  have hsend : k.client ≠ .sending := by
    rcases hc with ⟨hc, -⟩ | hc <;> simp [hc]
  cases ha with
  | send hs | abort hs => exact absurd hs hsend
  | connected hq | unconnected hq | dropRequest hq | launch hq | answer hq | dead hq | refuse hq
  | approve hq | delay hq | reply hq =>
    rw [hp] at hq
    cases hq
  | dispatch hq | died hq | finish hq | drain hq =>
    rw [hh] at hq
    cases hq
  | alive => exact ⟨⟨hh, hp, hc⟩, rfl⟩
  | fire ht hw hrec =>
    rcases hc with ⟨-, ht'⟩ | hr
    · rw [ht'] at ht
      cases ht
      cases hrec with
      | lost hok => exact ⟨⟨hh, hp, .inr rfl⟩, rfl⟩
      | decoded hok | garbled hok => cases hok
    · rw [hw] at hr
      cases hr

theorem unserved_run (hk : s.calls c = some k) (h : Unserved k) (hr : Run (Steps G) s ls s') :
    dispatches c ls = [] ∧ ∃ k', s'.calls c = some k' ∧ Unserved k' := by
  induction hr with
  | nil => exact ⟨rfl, k, hk, h⟩
  | @snoc ls t l u _ hs ih =>
    obtain ⟨hd, k₁, hk₁, hu⟩ := ih
    cases step_call (c := c) hs with
    | other hon hc ho =>
      refine ⟨?_, k₁, hc.trans hk₁, hu⟩
      rw [dispatches, acts_other hon]
      exact hd
    | made e m args reply hl hn hc =>
      rw [hn] at hk₁
      cases hk₁
    | act a k₂ k₃ s₁ hl hk₂ ha hs' =>
      rw [hk₁] at hk₂
      cases hk₂
      obtain ⟨hu', hdisp⟩ := (act_spec ha).2.unserved hu
      subst hl hs'
      refine ⟨?_, k₃, setCall_self s₁ c k₃, hu'⟩
      rw [dispatches_act, hd, hdisp]
      rfl

theorem unserved_fires (hk : s.calls c = some k) (h : Unserved k) (hw : k.client = .waiting)
    (hf : s.fatal = none) :
    ∃ s' k', step G s (.act c (.fire failure)) = some s' ∧ s'.calls c = some k' ∧
    k'.client = .returned false := by
  obtain ⟨hh, hp, hc⟩ := h
  have ht : k.timer = some failure := by
    rcases hc with ⟨-, ht⟩ | hr
    · exact ht
    · rw [hw] at hr
      cases hr
  have hact : s.act G k (.fire failure) =
      some (s.addBytes [], { k with timer := none, client := .returned false }) := by
    simp [Network.act, ht, hw, Network.receive, failure]
  refine ⟨_, _, ?_, setCall_self (s.addBytes []) c { k with
      timer := none, client := .returned false }, rfl⟩
  simp [step, hf, hk, hact]

/-! ## The discipline of the network -/

/-- What a successful `Call`, whose record is `k` at the end of `ls`, rests on. -/
def Succeeded (G : Gob V T) (c : Nat) (ls : List (Label E N V T)) (k : Call E N V T) : Prop :=
  ∃ t v args reply, dispatches c ls = [t.server] ∧ returns c ls = [v] ∧
    replies c ls = [⟨true, (G.encode v).1⟩] ∧
    opened c ls = [(k.req.endname, k.req.svcMeth, args, reply)] ∧ G.decode (G.encode v).1 reply =
      (k.reply, true) ∧
    WasRead G c k.req.endname t ls ∧ WasAlive G c k.req.endname t v ls

theorem CallInv.succeeded (h : CallInv G c ls k) (hc : k.client = .returned true) :
    Succeeded G c ls k := by
  obtain ⟨args, reply, ho, -, -, hvar⟩ := h.origin
  have hsent := h.sent
  have hhandler := h.handler
  rw [RepliesOk, hc] at hsent
  rw [VarOk, hc] at hvar
  obtain ⟨m, hm, hdec⟩ := hvar
  have hok : m.ok = true := by
    rcases hsent.2 with ⟨-, -, hf⟩ | ⟨-, m', hm', hok⟩
    · cases hf
    · rw [hm] at hm'
      cases hm'
      exact hok
  obtain ⟨t, v, hd, hv, rfl, hread, halive⟩ := h.approved m (by simp [hm]) hok
  rw [hd] at hhandler
  exact ⟨t, v, args, reply, hhandler.1, hv, hm, ho, hdec, hread, halive⟩

def Network.Disconnected (s : Network E N V T) (e : E) : Prop :=
  s.enabled e = false ∨ s.connections e = none ∨ ∃ n, s.connections e = some n ∧ s.servers n = none

omit [DecidableEq E] [DecidableEq N] [DecidableEq T] in
theorem Network.Disconnected.read {e : E} (h : s.Disconnected e) : s.readEndnameInfo e = none := by
  unfold Network.readEndnameInfo
  rcases h with h | h | ⟨n, h₁, h₂⟩
  · simp [h]
  · simp [h]
  · simp [h₁, h₂]

structure Delivery (G : Gob V T) (c : Nat) (ls : List (Label E N V T)) (s : Network E N V T) :
    Prop where
  at_most_one_reply : (replies c ls).length ≤ 1
  one_reply : ∀ k, s.calls c = some k → k.proc = .done → k.timer = none → (replies c ls).length = 1
  at_most_once : (dispatches c ls).length ≤ 1
  success : ∀ k, s.calls c = some k → k.client = .returned true → Succeeded G c ls k
  -- A reply that is decoded into a zero value is the one that the handler left.
  decoded : ∀ k, s.calls c = some k → k.client = .returned true → ∀ e m args reply v,
    opened c ls = [(e, m, args, reply)] → returns c ls = [v] → (G.encode v).2 = true →
    reply = G.zero (G.typeOf v) → k.reply = v
  -- An end that is disconnected when `processReq` looks at it gets a negative reply.
  unserved : ∀ l₁ l₂ u k, ls = l₁ ++ .act c .read :: l₂ → Run (Steps G) makeNetwork l₁ u →
    u.calls c = some k →
    u.Disconnected k.req.endname → dispatches c ls = [] ∧ ∃ k', s.calls c = some k' ∧
      (k'.client = .returned false ∨ k'.client = .waiting ∧ (s.fatal = none → ∃ s' k'',
        step G s (.act c (.fire failure)) = some s' ∧ s'.calls c = some k'' ∧
        k''.client = .returned false))

structure Discipline (G : Gob V T) (ls : List (Label E N V T)) (s : Network E N V T) : Prop where
  calls : ∀ c, Delivery G c ls s
  counts : ∀ o rs, s.objects o = some rs → rs.count = BitVec.ofNat 64 ((served ls).count o)
  getCount : ∀ n o, s.servers n = some o →
    s.getCount n = some (BitVec.ofNat 64 ((served ls).count o)).toInt
  -- An `int` has room for so many calls.
  fits : ∀ n o, s.servers n = some o → (served ls).count o < 2 ^ 63 →
    s.getCount n = some ((served ls).count o : Int)

theorem CallInv.replies_le (h : CallInv G c ls k) : (replies c ls).length ≤ 1 := by
  have hsent := h.sent
  unfold RepliesOk at hsent
  split at hsent
  · simp [hsent.2.2]
  · simp [hsent.2.1]
  · rcases hsent.2 with ⟨-, hs, -⟩ | ⟨-, m, hs, -⟩ <;> simp [hs]
  · obtain ⟨-, -, m, hs⟩ := hsent
    simp [hs]

theorem CallInv.one_reply (h : CallInv G c ls k) (hp : k.proc = .done) (ht : k.timer = none) :
    (replies c ls).length = 1 := by
  have hsent := h.sent
  unfold RepliesOk at hsent
  split at hsent
  · rw [hp] at hsent
    cases hsent.1
  · exact absurd ht (hsent.2.2.mp hp)
  · rcases hsent.2 with ⟨hu, -⟩ | ⟨-, m, hs, -⟩
    · rw [hp] at hu
      cases hu
    · simp [hs]
  · obtain ⟨-, -, m, hs⟩ := hsent
    simp [hs]

theorem CallInv.dispatches_le (h : CallInv G c ls k) : (dispatches c ls).length ≤ 1 := by
  have hhandler := h.handler
  unfold HandlerOk at hhandler
  split at hhandler <;> simp [hhandler.1]

theorem unserved_after {l₁ l₂ : List (Label E N V T)} {u : Network E N V T}
    (hr : Run (Steps G) makeNetwork (l₁ ++ .act c .read :: l₂) s)
    (hu : Run (Steps G) makeNetwork l₁ u) (hk : u.calls c = some k)
    (hd : u.Disconnected k.req.endname) :
    dispatches c (l₁ ++ .act c .read :: l₂) = [] ∧ ∃ k', s.calls c = some k' ∧ Unserved k' := by
  obtain ⟨u', hu', hrest⟩ := hr.split
  obtain rfl : u' = u := steps_functional hu' hu
  obtain ⟨w, hs, hrest⟩ := hrest.cons_inv
  have hinv := (netInv_run hu).calls c k hk
  cases step_call (c := c) hs with
  | other hon hc ho => simp [Label.on] at hon
  | made e m args reply hl hn hc => cases hl
  | act a k₁ k₂ s₁ hl hk₁ ha hs' =>
    cases hl
    rw [hk] at hk₁
    cases hk₁
    have hacted := (act_spec ha).2
    cases hacted with
    | connected hp ht =>
      rw [hd.read] at ht
      cases ht
    | unconnected hp ht =>
      have hproc := hinv.proc
      have hhandler := hinv.handler
      obtain ⟨hclient, -, -⟩ := hinv.sent.running (by simp [hp]) (by simp [hp])
      rw [ProcOk, hp] at hproc
      rw [hproc.1] at hhandler
      have hw : w.calls c = some { k with proc := .done, timer := some failure } := by
        rw [hs']
        exact setCall_self s₁ c _
      obtain ⟨hdisp, hlast⟩ := unserved_run hw ⟨hproc.1, rfl, .inl ⟨hclient, rfl⟩⟩ hrest
      refine ⟨?_, hlast⟩
      have hread : dispatches c (.act c .read :: l₂) = dispatches c l₂ := by
        simp only [dispatches, acts, List.filterMap_cons, Label.on, if_true, Action.dispatched]
      rw [dispatches_append, hread, hhandler.1, hdisp]
      rfl

theorem delivery_run (hG : G.Lawful) (hr : Run (Steps G) makeNetwork ls s) (c : Nat) :
    Delivery G c ls s := by
  have h := netInv_run hr
  have hcases : (acts c ls = [] ∧ s.calls c = none) ∨ ∃ k, CallInv G c ls k := by
    cases hk : s.calls c with
    | none => exact .inl ⟨(h.unmade c hk).1, rfl⟩
    | some k => exact .inr ⟨k, h.calls c k hk⟩
  refine ⟨?_, fun k hk hp ht => (h.calls c k hk).one_reply hp ht, ?_,
    fun k hk hc => (h.calls c k hk).succeeded hc,
    fun k hk hc e m args reply v ho hv henc hz => ?_, fun l₁ l₂ u k hl hu hk hd => ?_⟩
  · rcases hcases with ⟨ha, -⟩ | ⟨k, hk⟩
    · simp [replies, ha]
    · exact hk.replies_le
  · rcases hcases with ⟨ha, -⟩ | ⟨k, hk⟩
    · simp [dispatches, ha]
    · exact hk.dispatches_le
  · obtain ⟨t, v', args', reply', -, hv', -, ho', hdec, -⟩ := (h.calls c k hk).succeeded hc
    rw [hv] at hv'
    rw [ho] at ho'
    cases hv'
    cases ho'
    rw [hz, hG v henc] at hdec
    exact (congrArg Prod.fst hdec).symm
  · subst hl
    obtain ⟨hdisp, k', hk', hun⟩ := unserved_after hr hu hk hd
    refine ⟨hdisp, k', hk', ?_⟩
    rcases hun.2.2 with ⟨hw, -⟩ | hret
    · exact .inr ⟨hw, fun hf => unserved_fires hk' hun hw hf⟩
    · exact .inl hret

/-- Whatever the calls, the configuration and the random choices do, in every order. -/
theorem rpc_delivery (hG : G.Lawful) (hr : Run (Steps G) makeNetwork ls s) : Discipline G ls s := by
  refine ⟨delivery_run hG hr, fun o rs ho => ?_, fun n o hn => getCount_run hr hn,
    fun n o hn hlt => ?_⟩
  · rw [← counts_run hr, Network.countOf, ho]
    rfl
  · rw [getCount_run hr hn, toInt_ofNat hlt]

end

end

/-! ## A call that succeeds -/

/-- Bytes as `gob` sends them: a zero is left out, and then changes no variable. -/
def byteGob : Gob (BitVec 8) Unit where
  typeOf := fun _ => ()
  zero := fun _ => 0
  encode := fun v => (if v = 0 then [] else [v], true)
  decode := fun bs x => match bs with
    | [] => (x, true)
    | [v] => (v, true)
    | _ => (x, false)

theorem byteGob_lawful : byteGob.Lawful := by
  intro v _
  by_cases hv : v = 0#8
  · simp [byteGob, hv]
  · simp [byteGob, hv]

def echoTrace : List (Label Nat Nat (BitVec 8) Unit) :=
  [.makeServer 0, .addService 0 "S" ⟨fun name => if name = "m" then some () else none⟩,
    .addServer 1 0, .makeEnd 2, .connect 2 (some 1), .enable 2 true, .call 0 2 "S.m" 5 0,
    .act 0 .send, .act 0 .read, .act 0 .launch, .act 0 (.dispatch 0), .act 0 (.finish 7),
    .act 0 .answer, .act 0 (.check false false), .act 0 (.reply ⟨true, [7]⟩)]

theorem rpc_delivery_echo :
    ∃ s k, Discipline byteGob echoTrace s ∧ s.calls 0 = some k ∧ k.client = .returned true ∧
    k.reply = 7 := by
  obtain ⟨s, hs, hk⟩ : ∃ s, echoTrace.foldlM (step byteGob) makeNetwork = some s ∧
      (s.calls 0).map (fun k => (k.client, k.reply)) = some (.returned true, 7) := ⟨_, rfl, rfl⟩
  obtain ⟨k, hk, hr⟩ := Option.map_eq_some_iff.mp hk
  exact ⟨s, k, rpc_delivery byteGob_lawful (Run.of_foldlM hs), hk, congrArg Prod.fst hr,
    congrArg Prod.snd hr⟩

end Csc412.Labrpc
