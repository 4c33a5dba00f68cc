import Mathlib.Algebra.BigOperators.Group.List.Basic
import Mathlib.Algebra.GroupWithZero.Nat
import Mathlib.Data.List.Nodup
import Mathlib.Data.List.Perm.Subperm
import Csc412.Labrpc.NetworkSound

/-!
# The statistics of the network

What `GetTotalCount`, `GetTotalBytes` and `GetCount` return. Each call that the network
takes pays for its arguments at once, and for a reply when it is put on its way or, if a
timer delays it, when it comes.
-/

namespace Csc412.Labrpc

open Lib

section
variable {E N V T : Type}

/-! ## What is counted -/

def Label.takes : Label E N V T → Option Nat
  | .act c .send => some c
  | _ => none

def Label.asks : Label E N V T → Option Nat
  | .act c (.dispatch _) => some c
  | _ => none

/-- The calls that the network took, in their order. -/
def taken (ls : List (Label E N V T)) : List Nat := ls.filterMap Label.takes

/-- The calls that a server was asked to handle. -/
def asked (ls : List (Label E N V T)) : List Nat := ls.filterMap Label.asks

def size (ms : List ReplyMsg) : Nat := (ms.map fun m => m.reply.length).sum

/-- The bytes of a reply that is on its way, and was paid for. -/
def Call.due (k : Call E N V T) : Nat :=
  match k.proc with
  | .replying m => m.reply.length
  | _ => 0

def Call.spent (k : Call E N V T) (sent : List ReplyMsg) : Nat :=
  k.req.args.length + size sent + k.due

def spent (ls : List (Label E N V T)) (s : Network E N V T) (c : Nat) : Nat :=
  match s.calls c with
  | some k => k.spent (replies c ls)
  | none => 0

def Action.takes : Action V → Nat
  | .send => 1
  | _ => 0

/-- What an action that leaves the record `k` pays. -/
def Action.charge (k : Call E N V T) : Action V → Nat
  | .send => k.req.args.length
  | .check _ _ => k.due
  | .fire m => m.reply.length
  | _ => 0

theorem size_append (ms ms' : List ReplyMsg) : size (ms ++ ms') = size ms + size ms' := by
  simp [size]

/-! ## One action -/

variable {G : Gob V T} {s s' s₁ : Network E N V T} {k k' : Call E N V T} {a : Action V}
    {sent : List ReplyMsg} {c : Nat}
  {l : Label E N V T} {ls : List (Label E N V T)}

/-- The two counters are the same. -/
def Unpaid (s s' : Network E N V T) : Prop := s'.count = s.count ∧ s'.bytes = s.bytes

theorem receive_unpaid (m : ReplyMsg) : Unpaid s (s.receive G k m).1 := by
  unfold Network.receive
  split
  · simp only
    split <;> exact ⟨rfl, rfl⟩
  · exact ⟨rfl, rfl⟩

theorem dispatch_unpaid (o : Nat) (rs : Server T) : Unpaid s (s.dispatch G k o rs).1 := by
  unfold Network.dispatch
  simp only
  split
  · exact ⟨rfl, rfl⟩
  · split
    · exact ⟨rfl, rfl⟩
    · split <;> exact ⟨rfl, rfl⟩

theorem act_pays [DecidableEq T] (h : s.act G k a = some (s₁, k')) :
    s₁.count = s.count + BitVec.ofNat 32 a.takes ∧
    s₁.bytes = s.bytes + BitVec.ofNat 64 (a.charge k') := by
  have hsame : ∀ {u : Network E N V T}, Unpaid s u → a.takes = 0 → a.charge k' = 0 →
      u.count = s.count + BitVec.ofNat 32 a.takes ∧
      u.bytes = s.bytes + BitVec.ofNat 64 (a.charge k') := by
    intro u hu h₁ h₂
    rw [h₁, h₂, hu.1, hu.2]
    simp
  cases a with
  | send =>
    simp only [Network.act] at h
    split at h <;> cases h
    exact ⟨rfl, rfl⟩
  | abort | launch | answer =>
    simp only [Network.act] at h
    split at h <;> cases h
    exact hsame ⟨rfl, rfl⟩ rfl rfl
  | read | dropRequest | finish | poll | drain =>
    simp only [Network.act] at h
    split at h
    · split at h <;> cases h <;> exact hsame ⟨rfl, rfl⟩ rfl rfl
    · cases h
  | dispatch o =>
    simp only [Network.act] at h
    split at h
    · split at h
      · obtain ⟨rs, -, hr⟩ := Option.map_eq_some_iff.mp h
        have hu := dispatch_unpaid (G := G) (s := s) (k := k) o rs
        rw [hr] at hu
        exact hsame hu rfl rfl
      · cases h
    · cases h
  | check drop delay =>
    simp only [Network.act] at h
    split at h
    · rename_i t reply hp
      generalize outcome t reply (s.isServerDead k.req.endname t.servername t.server) drop delay =
        out at h
      obtain ⟨p, timer⟩ := out
      cases h
      cases p with
      | replying m => exact ⟨(BitVec.add_zero _).symm, rfl⟩
      | _ => exact hsame ⟨rfl, rfl⟩ rfl rfl
    · cases h
  | reply m =>
    simp only [Network.act] at h
    split at h
    · split at h
      · have hu := receive_unpaid (G := G) (s := s) (k := { k with proc := .done }) m
        rw [Option.some.inj h] at hu
        exact hsame hu rfl rfl
      · cases h
    · cases h
  | fire m =>
    simp only [Network.act] at h
    split at h
    · split at h
      · have hu := receive_unpaid (G := G) (s := s.addBytes m.reply)
          (k := { k with timer := none }) m
        rw [Option.some.inj h] at hu
        exact ⟨hu.1.trans (BitVec.add_zero _).symm, hu.2⟩
      · cases h
    · cases h

theorem Received.proc {m : ReplyMsg} (h : Received G k m k') : k'.proc = k.proc := by
  cases h <;> rfl

/-- What an action pays is owed by its call before or after it. -/
theorem Acted.due (ha : Acted G s k a k') (hs : a.takes = 0) :
    k'.due + size a.replied.toList = k.due + a.charge k' := by
  cases ha with
  | send => cases hs
  | connected hp | unconnected hp | dropRequest hp | launch hp | answer hp | dead hp =>
    simp [Call.due, Action.charge, Action.replied, size, hp, failure]
  | refuse hp | approve hp | delay hp =>
    simp [Call.due, Action.charge, Action.replied, size, hp, failure]
  | reply hp hw hrec => simp [Call.due, Action.charge, Action.replied, size, hp, hrec.proc]
  | fire ht hw hrec => simp [Call.due, Action.charge, Action.replied, size, hrec.proc]
  | abort | dispatch | died | finish | alive | drain => rfl

theorem Acted.unborn (ha : Acted G s k a k') (hs : a.takes = 0) :
    k'.proc = .unborn ↔ k.proc = .unborn := by
  cases ha with
  | send => cases hs
  | connected hp | unconnected hp | dropRequest hp | launch hp | answer hp | dead hp | refuse hp
  | approve hp | delay hp =>
    simp [hp]
  | reply hp hw hrec => simp [hp, hrec.proc]
  | fire ht hw hrec => simp [hrec.proc]
  | abort | dispatch | died | finish | alive | drain => rfl

/-- A call that was not taken pays nothing. -/
theorem Acted.unpaid (ha : Acted G s k a k') (hr : RepliesOk k sent) (hs : a.takes = 0)
    (hp : k.proc = .unborn) :
    a.charge k' = 0 := by
  cases ha with
  | send => cases hs
  | refuse hp' | approve hp' | delay hp' =>
    rw [hp] at hp'
    cases hp'
  | fire ht hw hrec =>
    unfold RepliesOk at hr
    rw [hw] at hr
    exact absurd hp hr.1
  | _ => rfl

/-! ## One step -/

section
variable [DecidableEq E] [DecidableEq N] [DecidableEq T]

/-- An action of one call, or a step that pays nothing. -/
theorem step_pays (h : step G s l = some s') :
    (∃ c a k k' s₁, l = .act c a ∧ s.calls c = some k ∧ s.act G k a = some (s₁, k') ∧
      s' = s₁.setCall c k') ∨
      (∀ c, l.on c = none) ∧ Unpaid s s' ∧
        ∀ c, s'.calls c = s.calls c ∨ s.calls c = none ∧ ∃ k, s'.calls c = some k ∧
        k.proc = .unborn := by
  have hf := step_fatal h
  unfold step at h
  rw [if_neg (by simp [hf])] at h
  cases l with
  | call c' e m args reply =>
    simp only at h
    split at h
    · cases h
    · rename_i hn
      cases h
      refine .inr ⟨fun c => rfl, ?_, fun c => ?_⟩
      · unfold Network.call
        simp only
        split <;> exact ⟨rfl, rfl⟩
      · unfold Network.call
        simp only
        split
        · by_cases hc : c = c'
          · subst hc
            exact .inr ⟨by simpa using hn, _, setCall_self _ _ _, rfl⟩
          · exact .inl (Function.update_of_ne hc _ _)
        · exact .inl rfl
  | act c' a =>
    simp only at h
    split at h
    · cases h
    · rename_i k hk
      obtain ⟨⟨s₁, k'⟩, ha, rfl⟩ := Option.map_eq_some_iff.mp h
      exact .inl ⟨c', a, k, k', s₁, rfl, hk, ha, rfl⟩
  | _ =>
    refine .inr ⟨fun c => rfl, ?_⟩
    simp only at h
    first
    | (cases h; first | exact ⟨⟨rfl, rfl⟩, fun _ => .inl rfl⟩ |
        (unfold Network.makeEnd; split <;> exact ⟨⟨rfl, rfl⟩, fun _ => .inl rfl⟩) |
        (unfold Network.deleteEnd; split <;> exact ⟨⟨rfl, rfl⟩, fun _ => .inl rfl⟩) |
        (unfold Network.cleanup; split <;> exact ⟨⟨rfl, rfl⟩, fun _ => .inl rfl⟩))
    | (split at h <;> cases h; exact ⟨⟨rfl, rfl⟩, fun _ => .inl rfl⟩)
    | (obtain ⟨_, -, rfl⟩ := Option.map_eq_some_iff.mp h; exact ⟨⟨rfl, rfl⟩, fun _ => .inl rfl⟩)

omit [DecidableEq E] [DecidableEq N] [DecidableEq T] in
theorem taken_snoc : taken (ls ++ [l]) = taken ls ++ l.takes.toList := filterMap_snoc _ ls l

omit [DecidableEq E] [DecidableEq N] [DecidableEq T] in
theorem takes_none (h : ∀ c, l.on c = none) : l.takes = none := by
  cases l with
  | act c a => simpa [Label.on] using h c
  | _ => rfl

omit [DecidableEq E] [DecidableEq N] [DecidableEq T] in
theorem takes_act (hs : a.takes = 0) : (Label.act c a : Label E N V T).takes = none := by
  cases a with
  | send => cases hs
  | _ => rfl

omit [DecidableEq E] [DecidableEq N] [DecidableEq T] in
theorem spent_congr (hl : l.on c = none) (hc : s'.calls c = s.calls c) :
    spent (ls ++ [l]) s' c = spent ls s c := by
  rw [spent, spent, hc, replies, replies, acts_other hl]

theorem sum_map_add {ns : List Nat} {f g : Nat → Nat} {n : Nat} (hns : ns.Nodup) (hc : c ∈ ns)
    (hg : g c = f c + n) (hne : ∀ d ∈ ns, d ≠ c → g d = f d) :
    (ns.map g).sum = (ns.map f).sum + n := by
  have hrest : (ns.erase c).map g = (ns.erase c).map f := List.map_congr_left fun d hd => by
    obtain ⟨hdc, hd⟩ := hns.mem_erase_iff.mp hd
    exact hne d hd hdc
  rw [← List.sum_map_erase f hc, ← List.sum_map_erase g hc, hg, hrest]
  omega

/-! ## The whole run -/

/-- What was taken and what was paid for it, after trace `ls`. -/
structure Ledger (ls : List (Label E N V T)) (s : Network E N V T) : Prop where
  mem : ∀ c, c ∈ taken ls ↔ ∃ k, s.calls c = some k ∧ k.proc ≠ .unborn
  nodup : (taken ls).Nodup
  count : s.count = BitVec.ofNat 32 (taken ls).length
  bytes : s.bytes = BitVec.ofNat 64 ((taken ls).map (spent ls s)).sum

omit [DecidableEq E] [DecidableEq N] [DecidableEq T] in
theorem Ledger.quiet (h : Ledger ls s) (hon : ∀ c, l.on c = none) (hu : Unpaid s s')
    (hcalls : ∀ c, s'.calls c = s.calls c ∨ s.calls c = none ∧ ∃ k, s'.calls c = some k ∧
      k.proc = .unborn) :
    Ledger (ls ++ [l]) s' := by
  have htaken : taken (ls ++ [l]) = taken ls := by
    rw [taken_snoc, takes_none hon, Option.toList_none, List.append_nil]
  have hsum : (taken ls).map (spent (ls ++ [l]) s') = (taken ls).map (spent ls s) :=
      List.map_congr_left fun c hc => by
    obtain ⟨k, hk, -⟩ := (h.mem c).mp hc
    refine spent_congr (hon c) ((hcalls c).resolve_right fun hn => ?_)
    rw [hk] at hn
    cases hn.1
  refine ⟨fun c => ?_, htaken ▸ h.nodup, ?_, ?_⟩
  · rw [htaken, h.mem c]
    rcases hcalls c with hc | ⟨hn, k, hk, hp⟩
    · rw [hc]
    · simp [hn, hk, hp]
  · rw [htaken, hu.1, h.count]
  · rw [htaken, hu.2, h.bytes, hsum]

omit [DecidableEq E] [DecidableEq N] [DecidableEq T] in
theorem Ledger.ne (h : Ledger ls s) (hk : s.calls c = some k) (hp : k.proc = .unborn) {d : Nat}
    (hd : d ∈ taken ls) : d ≠ c := by
  rintro rfl
  obtain ⟨k₁, hk₁, hp₁⟩ := (h.mem d).mp hd
  rw [hk] at hk₁
  cases hk₁
  exact hp₁ hp

omit [DecidableEq E] [DecidableEq N] in
theorem calls_other (ha : s.act G k a = some (s₁, k')) {d : Nat} (hd : d ≠ c) :
    (s₁.setCall c k').calls d = s.calls d := by
  rw [← (act_spec ha).1.calls]
  exact Function.update_of_ne hd _ _

omit [DecidableEq E] [DecidableEq N] in
theorem spent_other (ha : s.act G k a = some (s₁, k')) {d : Nat} (hd : d ≠ c) :
    spent (ls ++ [.act c a]) (s₁.setCall c k') d = spent ls s d :=
  spent_congr (by simp [Label.on, hd.symm]) (calls_other ha hd)

omit [DecidableEq E] [DecidableEq N] [DecidableEq T] in
theorem spent_self :
    spent (ls ++ [.act c a]) (s₁.setCall c k') c = k'.spent (replies c ls ++ a.replied.toList) := by
  rw [spent, setCall_self, replies_act]

omit [DecidableEq E] [DecidableEq N] in
/-- The network takes the call. -/
theorem Ledger.take (h : Ledger ls s) (hk : s.calls c = some k) (hr : RepliesOk k (replies c ls))
    (ha : s.act G k .send = some (s₁, k')) : Ledger (ls ++ [.act c .send]) (s₁.setCall c k') := by
  obtain ⟨hcount, hbytes⟩ := act_pays ha
  have htaken : taken (ls ++ [.act c .send]) = taken ls ++ [c] := taken_snoc
  cases (act_spec ha).2 with
  | send hsending =>
    unfold RepliesOk at hr
    rw [hsending] at hr
    obtain ⟨hp, -, hnone⟩ := hr
    have hc : c ∉ taken ls := fun hc => h.ne hk hp hc rfl
    refine ⟨fun d => ?_, ?_, ?_, ?_⟩
    · rw [htaken, List.mem_append, List.mem_singleton, h.mem d]
      by_cases hd : d = c
      · rw [hd, setCall_self]
        simp
      · rw [calls_other ha hd]
        simp [hd]
    · rw [htaken]
      exact List.nodup_append_comm.mpr (List.nodup_cons.mpr ⟨hc, h.nodup⟩)
    · rw [htaken, List.length_append, List.length_singleton, BitVec.ofNat_add, ← h.count]
      exact hcount
    · rw [htaken, List.map_append, List.sum_append, List.map_singleton, List.sum_singleton,
        BitVec.ofNat_add, spent_self,
        List.map_congr_left fun d hd => spent_other ha (h.ne hk hp hd), ← h.bytes, hnone]
      exact hbytes

omit [DecidableEq E] [DecidableEq N] in
theorem Ledger.pay (h : Ledger ls s) (hk : s.calls c = some k) (hr : RepliesOk k (replies c ls))
    (ha : s.act G k a = some (s₁, k')) (hs : a.takes = 0) :
    Ledger (ls ++ [.act c a]) (s₁.setCall c k') := by
  have hacted := (act_spec ha).2
  obtain ⟨hcount, hbytes⟩ := act_pays ha
  have htaken : taken (ls ++ [.act c a]) = taken ls := by
    rw [taken_snoc, takes_act hs, Option.toList_none, List.append_nil]
  have hborn := hacted.unborn hs
  refine ⟨fun d => ?_, htaken ▸ h.nodup, ?_, ?_⟩
  · rw [htaken, h.mem d]
    by_cases hd : d = c
    · rw [hd, setCall_self, hk]
      simp [hborn]
    · rw [calls_other ha hd]
  · rw [htaken, ← h.count]
    exact hcount.trans (by rw [hs]; exact BitVec.add_zero _)
  · rw [htaken]
    refine hbytes.trans ?_
    rw [h.bytes, ← BitVec.ofNat_add]
    refine congrArg _ ?_
    by_cases hp : k.proc = .unborn
    · rw [hacted.unpaid hr hs hp, Nat.add_zero]
      exact congrArg List.sum (List.map_congr_left
        fun d hd => (spent_other ha (h.ne hk hp hd)).symm)
    · have hc : c ∈ taken ls := (h.mem c).mpr ⟨k, hk, hp⟩
      refine (sum_map_add h.nodup hc ?_ fun d _ hd => spent_other ha hd).symm
      have hbefore : spent ls s c = k.spent (replies c ls) := by rw [spent, hk]
      have hdue := hacted.due hs
      rw [spent_self, hbefore]
      unfold Call.spent
      rw [size_append, hacted.req]
      omega

omit [DecidableEq E] [DecidableEq N] in
theorem Ledger.act (h : Ledger ls s) (hk : s.calls c = some k) (hr : RepliesOk k (replies c ls))
    (ha : s.act G k a = some (s₁, k')) : Ledger (ls ++ [.act c a]) (s₁.setCall c k') := by
  cases a with
  | send => exact h.take hk hr ha
  | _ => exact h.pay hk hr ha rfl

theorem ledger_run (hr : Run (Steps G) makeNetwork ls s) : Ledger ls s := by
  induction hr with
  | nil => exact ⟨fun c => by simp [taken, makeNetwork], List.nodup_nil, rfl, rfl⟩
  | snoc hr hs ih =>
    rcases step_pays hs with ⟨c, a, k, k', s₁, rfl, hk, ha, rfl⟩ | ⟨hon, hu, hcalls⟩
    · exact ih.act hk ((netInv_run hr).calls c k hk).sent ha
    · exact ih.quiet hon hu hcalls

omit [DecidableEq E] [DecidableEq N] [DecidableEq T] in
theorem count_asked : (asked ls).count c = (dispatches c ls).length := by
  induction ls with
  | nil => rfl
  | cons l ls ih =>
    have happ : dispatches c (l :: ls) = dispatches c [l] ++ dispatches c ls :=
      dispatches_append [l] ls
    have hcons : asked (l :: ls) = l.asks.toList ++ asked ls := by
      rw [asked, List.filterMap_cons]
      cases l.asks <;> rfl
    rw [happ, hcons, List.count_append, List.length_append, ih]
    congr 1
    cases l with
    | act c' a =>
      by_cases hc : c' = c <;> cases a <;>
        simp [Label.asks, dispatches, acts, Label.on, Action.dispatched, hc, List.filterMap_cons]
    | _ => rfl

omit [DecidableEq E] [DecidableEq N] [DecidableEq T] in
theorem length_asked : (asked ls).length = (served ls).length := by
  unfold asked served
  induction ls with
  | nil => rfl
  | cons l ls ih =>
    rw [List.filterMap_cons, List.filterMap_cons]
    cases l with
    | act c a => cases a <;> simpa [Label.asks, Label.serves, Action.dispatched] using ih
    | _ => exact ih

/-- What the network's counters tell about the run `ls`. -/
structure Statistics (ls : List (Label E N V T)) (s : Network E N V T) : Prop where
  total : s.getTotalCount = (BitVec.ofNat 32 (taken ls).length).toInt
  bytes : s.getTotalBytes = (BitVec.ofNat 64 ((taken ls).map (spent ls s)).sum).toInt
  -- no call is counted twice, and no server is asked about one that is not counted
  once : (taken ls).Nodup
  handled : (asked ls).Nodup ∧ ∀ c ∈ asked ls, c ∈ taken ls
  server : ∀ n o, s.servers n = some o →
    s.getCount n = some (BitVec.ofNat 64 ((served ls).count o)).toInt
  servers : (served ls).length ≤ (taken ls).length

theorem network_statistics (hr : Run (Steps G) makeNetwork ls s) : Statistics ls s := by
  have h := ledger_run hr
  have hinv := netInv_run hr
  have htaken : ∀ c ∈ asked ls, c ∈ taken ls := by
    intro c hc
    have hne : (dispatches c ls).length ≠ 0 := by
      rw [← count_asked]
      exact Nat.ne_of_gt (List.count_pos_iff.mpr hc)
    cases hk : s.calls c with
    | none =>
      rw [dispatches, (hinv.unmade c hk).1] at hne
      exact absurd rfl hne
    | some k =>
      refine (h.mem c).mpr ⟨k, hk, fun hp => hne ?_⟩
      have hproc := (hinv.calls c k hk).proc
      have hhandler := (hinv.calls c k hk).handler
      unfold ProcOk at hproc
      rw [hp] at hproc
      rw [hproc.1] at hhandler
      rw [hhandler.1]
      rfl
  have hnodup : (asked ls).Nodup := List.nodup_iff_count_le_one.mpr fun c => by
    rw [count_asked]
    cases hk : s.calls c with
    | none =>
      rw [dispatches, (hinv.unmade c hk).1]
      exact Nat.zero_le 1
    | some k => exact (hinv.calls c k hk).dispatches_le
  refine ⟨by rw [Network.getTotalCount, h.count], by rw [Network.getTotalBytes, h.bytes], h.nodup,
    ⟨hnodup, htaken⟩,
    fun n o hn => getCount_run hr hn, ?_⟩
  rw [← length_asked]
  exact (hnodup.subperm htaken).length_le

end

end

/-- One call, with a byte for its argument and one for its reply. -/
theorem network_statistics_echo :
    ∃ s, Statistics echoTrace s ∧ s.getTotalCount = 1 ∧ s.getTotalBytes = 2 ∧
    s.getCount 1 = some 1 := by
  obtain ⟨s, hs, hc, hb, hn⟩ : ∃ s, echoTrace.foldlM (step byteGob) makeNetwork = some s ∧
    s.getTotalCount = 1 ∧
      s.getTotalBytes = 2 ∧ s.getCount 1 = some 1 := ⟨_, rfl, rfl, rfl, rfl⟩
  exact ⟨s, network_statistics (Run.of_foldlM hs), hc, hb, hn⟩

end Csc412.Labrpc
