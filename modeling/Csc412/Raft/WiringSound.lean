import Csc412.Labrpc.NetworkSound
import Csc412.Raft.Partition

/-!
# The wiring of the tester's network

Which ends are enabled, and where they lead, is a matter of the wiring of the network:
the traffic leaves it alone, and the pending operations of a move say what it will be.
What each of the four moves leaves is the wiring that its `connected` and `endnames`
call for.
-/

namespace Csc412.Raft

open Lib Labrpc

section
variable {E V T : Type} [DecidableEq E]

/-! ## The wiring -/

structure Wiring (E : Type) where
  ends : E → Bool
  enabled : E → Bool
  connections : E → Option Nat
  servers : Nat → Option Nat

def wiring (s : Network E Nat V T) : Wiring E := ⟨s.ends, s.enabled, s.connections, s.servers⟩

namespace Wiring

/-- The wiring after a call of a method of the network that returns. -/
def effect (w : Wiring E) : Label E Nat V T → Option (Wiring E)
  | .makeEnd e =>
    if w.ends e then none
    else some ⟨Function.update w.ends e true, Function.update w.enabled e false,
      Function.update w.connections e none, w.servers⟩
  | .deleteEnd e =>
    if w.ends e then
      some ⟨Function.update w.ends e false, Function.update w.enabled e false,
        Function.update w.connections e none, w.servers⟩
    else none
  | .connect e n => some { w with connections := Function.update w.connections e n }
  | .enable e b => some { w with enabled := Function.update w.enabled e b }
  | .addServer n rs => some { w with servers := Function.update w.servers n (some rs) }
  | .deleteServer n => some { w with servers := Function.update w.servers n none }
  | _ => some w

def effects (w : Wiring E) (ops : List (Op E V T)) : Option (Wiring E) :=
  ops.foldlM (fun w op => op.bind w.effect) w

variable {w w' : Wiring E}

@[simp] theorem effects_nil : w.effects ([] : List (Op E V T)) = some w := rfl

theorem effects_append {ops ops' : List (Op E V T)} (h : w.effects (ops ++ ops') = some w') :
    ∃ u, w.effects ops = some u ∧ u.effects ops' = some w' := by
  rw [effects, List.foldlM_append] at h
  exact Option.bind_eq_some_iff.mp h

theorem effects_cons {op : Op E V T} {ops : List (Op E V T)} (h : w.effects (op :: ops) = some w') :
    ∃ l u, op = some l ∧ w.effect l = some u ∧ u.effects ops = some w' := by
  rw [effects, List.foldlM_cons] at h
  obtain ⟨u, hu, h⟩ := Option.bind_eq_some_iff.mp h
  obtain ⟨l, hl, hu⟩ := Option.bind_eq_some_iff.mp hu
  exact ⟨l, u, hl, hu, h⟩

/-- The ends `names` are enabled, or disabled. -/
structure Enabled (b : Bool) (names : List (Option E)) (w w' : Wiring E) : Prop where
  named : none ∉ names
  ends : w'.ends = w.ends
  connections : w'.connections = w.connections
  servers : w'.servers = w.servers
  enabled : ∀ e, w'.enabled e = if some e ∈ names then b else w.enabled e

theorem effects_enables {b : Bool} {names : List (Option E)}
    (h : w.effects (enables (V := V) (T := T) b names) = some w') :
    Enabled b names w w' := by
  induction names generalizing w with
  | nil =>
    cases h
    exact ⟨by simp, rfl, rfl, rfl, by simp⟩
  | cons o names ih =>
    obtain ⟨l, u, hl, hu, h⟩ := effects_cons h
    obtain ⟨e, rfl, rfl⟩ := Option.map_eq_some_iff.mp hl
    cases hu
    obtain ⟨hnone, hends, hconn, hserv, hen⟩ := ih h
    refine ⟨by simpa using hnone, hends, hconn, hserv, fun e' => ?_⟩
    rw [hen]
    by_cases hmem : some e' ∈ names
    · simp [hmem]
    · by_cases he : e' = e <;> simp [hmem, he]

/-- A new end `e` to server `j`. -/
def make (w : Wiring E) (e : E) (j : Nat) : Wiring E :=
  ⟨Function.update w.ends e true, Function.update w.enabled e false,
    Function.update w.connections e (some j), w.servers⟩

theorem effects_make {e : E} {j : Nat}
    (h : w.effects [some (Label.makeEnd e : Label E Nat V T), some (.connect e (some j))] =
      some w') :
    w.ends e = false ∧ w' = w.make e j := by
  obtain ⟨_, u, hl, hu, h⟩ := effects_cons h
  cases hl
  have hnew : w.ends e = false := by
    by_contra he
    simp [effect, he] at hu
  rw [effect, if_neg (by simp [hnew])] at hu
  cases hu
  obtain ⟨_, v, hl, hv, h⟩ := effects_cons h
  cases hl
  cases hv
  cases h
  simp [hnew, make]

/-- `k` new ends, each with its connection. -/
structure Made (names : Nat → E) (k : Nat) (w w' : Wiring E) : Prop where
  fresh : ∀ j < k, w.ends (names j) = false
  inj : ∀ i < k, ∀ j < k, names i = names j → i = j
  ends : ∀ e, w'.ends e = true ↔ w.ends e = true ∨ ∃ j < k, names j = e
  enabled : ∀ e, w'.enabled e = true ↔ w.enabled e = true ∧ ∀ j < k, names j ≠ e
  connected : ∀ j < k, w'.connections (names j) = some j
  other : ∀ e, (∀ j < k, names j ≠ e) → w'.connections e = w.connections e
  servers : w'.servers = w.servers

theorem Made.succ {names : Nat → E} {k : Nat} {u : Wiring E} (hm : Made names k w u)
    (hnew : u.ends (names k) = false) :
    Made names (k + 1) w (u.make (names k) k) := by
  have hold : w.ends (names k) = false ∧ ∀ j < k, names j ≠ names k := by
    rw [← Bool.not_eq_true, hm.ends] at hnew
    simpa using hnew
  refine ⟨fun j hj => ?_, fun i hi j hj hij => ?_, fun e => ?_, fun e => ?_, fun j hj => ?_,
    fun e he => ?_, hm.servers⟩
  · rcases Nat.lt_succ_iff_lt_or_eq.mp hj with hj | rfl
    · exact hm.fresh j hj
    · exact hold.1
  · rcases Nat.lt_succ_iff_lt_or_eq.mp hi with hi | rfl <;>
      rcases Nat.lt_succ_iff_lt_or_eq.mp hj with hj | rfl
    · exact hm.inj i hi j hj hij
    · exact absurd hij (hold.2 i hi)
    · exact absurd hij.symm (hold.2 j hj)
    · rfl
  · by_cases he : e = names k
    · simp only [make, he, Function.update_self, true_iff]
      exact .inr ⟨k, by simp, rfl⟩
    · simp only [make, Function.update_of_ne he, hm.ends, Nat.exists_lt_succ_right, Ne.symm he,
        or_false]
  · by_cases he : e = names k
    · simp only [make, he, Function.update_self, Bool.false_eq_true, false_iff]
      exact fun h => h.2 k (by simp) rfl
    · simp only [make, Function.update_of_ne he, hm.enabled, Nat.forall_lt_succ_right, ne_eq,
        Ne.symm he, not_false_eq_true, and_true]
  · rcases Nat.lt_succ_iff_lt_or_eq.mp hj with hj | rfl
    · simp [make, Function.update_of_ne (hold.2 j hj), hm.connected j hj]
    · simp [make]
  · have hne : e ≠ names k := (he k (by simp)).symm
    simp only [make, Function.update_of_ne hne]
    exact hm.other e fun j hj => he j (by omega)

theorem effects_made {names : Nat → E} {k : Nat}
    (h : w.effects ((List.range k).flatMap fun j =>
      [some (Label.makeEnd (names j) : Label E Nat V T), some (.connect (names j) (some j))]) =
      some w') : Made names k w w' := by
  induction k generalizing w' with
  | zero =>
    cases h
    exact ⟨by simp, by simp, by simp, by simp, by simp, by simp, rfl⟩
  | succ k ih =>
    rw [List.range_succ, List.flatMap_append] at h
    obtain ⟨u, hu, h⟩ := effects_append h
    obtain ⟨hnew, rfl⟩ := effects_make (by simpa using h)
    exact (ih hu).succ hnew

end Wiring

/-! ## What the operations of a move leave -/

/-- The wiring `w` when nothing of a move is left. -/
structure Settled (h : Harness E V T) (w : Wiring E) : Prop where
  named : ∀ i, h.connected i = true → i < h.n ∧ (h.endnames i).isSome
  inj : ∀ e, ∀ i < h.n, ∀ j < h.n, ∀ i' < h.n, ∀ j' < h.n, h.endname i j = some e →
    h.endname i' j' = some e → i = i' ∧ j = j'
  made : ∀ e, ∀ i < h.n, ∀ j < h.n, h.endname i j = some e → w.ends e = true ∧
    w.connections e = some j
  enabled : ∀ e, w.enabled e = true ↔
    ∃ i < h.n, ∃ j < h.n, h.endname i j = some e ∧ h.connected i = true ∧ h.connected j = true
  servers : ∀ i, (w.servers i).isSome = h.rafts i

section
variable {h : Harness E V T} {w w' : Wiring E} {i : Nat}

omit [DecidableEq E] in
theorem settled_new (n : Nat) :
    Settled (newConfig n : Harness E V T) (wiring (newConfig n : Harness E V T).net) := by
  refine ⟨?_, ?_, ?_, ?_, ?_⟩ <;> simp [newConfig, Harness.endname, wiring, Labrpc.makeNetwork]

omit [DecidableEq E] in
theorem mem_names {P : Nat → Bool} {f : Nat → Option E} {n : Nat} {o : Option E} :
    o ∈ ((List.range n).filter P).map f ↔ ∃ j < n, P j = true ∧ f j = o := by
  simp [and_assoc]

omit [DecidableEq E] in
theorem enables_append (b : Bool) (xs ys : List (Option E)) :
    (enables b xs ++ enables b ys : List (Op E V T)) = enables b (xs ++ ys) := List.map_append.symm

omit [DecidableEq E] in
theorem connect_pending : ∃ names, (h.connect i).pending = enables true names ∧
    ∀ o, o ∈ names ↔ ∃ j < h.n, (h.connect i).connected j = true ∧
    (h.endname i j = o ∨ h.endname j i = o) := by
  refine ⟨_, enables_append _ _ _, fun o => ?_⟩
  rw [List.mem_append, mem_names, mem_names, ← exists_or]
  refine exists_congr fun j => ?_
  rw [← and_or_left, ← and_or_left]
  rfl

omit [DecidableEq E] in
theorem disconnect_pending : ∃ names, (h.disconnect i).pending = enables false names ∧
    ∀ e, some e ∈ names ↔ ∃ j < h.n, h.endname i j = some e ∨ h.endname j i = some e := by
  refine ⟨_, enables_append _ _ _, fun e => ?_⟩
  have hsome : ∀ k j, h.endname k j = some e → (h.endnames k).isSome := by
    intro k j hk
    obtain ⟨f, hf, -⟩ := Option.map_eq_some_iff.mp hk
    simp [hf]
  rw [List.mem_append, mem_names, mem_names, ← exists_or]
  refine exists_congr fun j => ?_
  rw [← and_or_left]
  refine and_congr_right fun _ => or_congr ?_ ?_
  · exact and_iff_right_of_imp (hsome i j)
  · exact and_iff_right_of_imp (hsome j i)

theorem Settled.connect (hs : Settled h w) (hi : i < h.n)
    (hw : w.effects (h.connect i).pending = some w') :
    Settled (h.connect i) w' := by
  obtain ⟨names, hpend, hmem⟩ := connect_pending (h := h) (i := i)
  rw [hpend] at hw
  obtain ⟨hnone, hends, hconns, hserv, hen⟩ := Wiring.effects_enables hw
  have hconn : ∀ k, (h.connect i).connected k = true ↔ k = i ∨ h.connected k = true := by
    intro k
    by_cases hk : k = i <;> simp [Harness.connect, hk]
  refine ⟨fun k hk => ?_, hs.inj, fun e k hk j hj he => ?_, fun e => ?_, fun k => ?_⟩
  · rcases (hconn k).mp hk with rfl | hk
    · refine ⟨hi, ?_⟩
      by_contra hnil
      refine hnone ((hmem none).mpr ⟨k, hi, hk, .inl ?_⟩)
      simpa [Harness.endname, Harness.connect] using hnil
    · exact hs.named k hk
  · rw [hends, hconns]
    exact hs.made e k hk j hj he
  · have hen' : w'.enabled e = true ↔ some e ∈ names ∨ w.enabled e = true := by
      rw [hen]
      by_cases he : some e ∈ names <;> simp [he]
    rw [hen', hmem, hs.enabled]
    constructor
    · rintro (⟨j, hj, hc, he | he⟩ | ⟨k, hk, j, hj, he, hck, hcj⟩)
      · exact ⟨i, hi, j, hj, he, (hconn i).mpr (.inl rfl), hc⟩
      · exact ⟨j, hj, i, hi, he, hc, (hconn i).mpr (.inl rfl)⟩
      · exact ⟨k, hk, j, hj, he, (hconn k).mpr (.inr hck), (hconn j).mpr (.inr hcj)⟩
    · rintro ⟨k, hk, j, hj, he, hck, hcj⟩
      rcases (hconn k).mp hck with rfl | hck'
      · exact .inl ⟨j, hj, hcj, .inl he⟩
      · rcases (hconn j).mp hcj with rfl | hcj'
        · exact .inl ⟨k, hk, hck, .inr he⟩
        · exact .inr ⟨k, hk, j, hj, he, hck', hcj'⟩
  · rw [hserv]
    exact hs.servers k

theorem Settled.disconnect (hs : Settled h w) (hi : i < h.n)
    (hw : w.effects (h.disconnect i).pending = some w') :
    Settled (h.disconnect i) w' := by
  obtain ⟨names, hpend, hmem⟩ := disconnect_pending (h := h) (i := i)
  rw [hpend] at hw
  obtain ⟨-, hends, hconns, hserv, hen⟩ := Wiring.effects_enables hw
  have hconn : ∀ k, (h.disconnect i).connected k = true ↔ k ≠ i ∧ h.connected k = true := by
    intro k
    by_cases hk : k = i <;> simp [Harness.disconnect, hk]
  refine ⟨fun k hk => hs.named k ((hconn k).mp hk).2, hs.inj, fun e k hk j hj he => ?_, fun e => ?_,
    fun k => ?_⟩
  · rw [hends, hconns]
    exact hs.made e k hk j hj he
  · have hen' : w'.enabled e = true ↔ some e ∉ names ∧ w.enabled e = true := by
      rw [hen]
      by_cases he : some e ∈ names <;> simp [he]
    rw [hen', hmem, hs.enabled]
    constructor
    · rintro ⟨hno, k, hk, j, hj, he, hck, hcj⟩
      refine ⟨k, hk, j, hj, he, (hconn k).mpr ⟨?_, hck⟩, (hconn j).mpr ⟨?_, hcj⟩⟩
      · rintro rfl
        exact hno ⟨j, hj, .inl he⟩
      · rintro rfl
        exact hno ⟨k, hk, .inr he⟩
    · rintro ⟨k, hk, j, hj, he, hck, hcj⟩
      obtain ⟨hki, hck⟩ := (hconn k).mp hck
      obtain ⟨hji, hcj⟩ := (hconn j).mp hcj
      refine ⟨?_, k, hk, j, hj, he, hck, hcj⟩
      rintro ⟨m, hm, he' | he'⟩
      · exact hki (hs.inj e k hk j hj i hi m hm he he').1
      · exact hji (hs.inj e k hk j hj m hm i hi he he').2
  · rw [hserv]
    exact hs.servers k

theorem Settled.crash1 (hs : Settled h w) (hi : i < h.n)
    (hw : w.effects (h.crash1 i).pending = some w') :
    Settled (h.crash1 i) w' := by
  obtain ⟨u, hu, hw⟩ := Wiring.effects_append hw
  obtain ⟨_, v, hl, hv, hw⟩ := Wiring.effects_cons hw
  cases hl
  cases hv
  cases hw
  have hd := hs.disconnect hi hu
  refine ⟨hd.named, hd.inj, hd.made, hd.enabled, fun k => ?_⟩
  by_cases hk : k = i
  · simp [Harness.crash1, hk]
  · simpa [Harness.crash1, hk] using hd.servers k

theorem effects_service {server : Nat} {svc : Service T} (h : w.effects
    [some (Label.makeServer server : Label E Nat V T), some (.addService server "Raft" svc),
      some (.addServer i server)] = some w') :
    w' = { w with servers := Function.update w.servers i (some server) } := by
  obtain ⟨_, u, hl, hu, h⟩ := Wiring.effects_cons h
  cases hl
  cases hu
  obtain ⟨_, u, hl, hu, h⟩ := Wiring.effects_cons h
  cases hl
  cases hu
  obtain ⟨_, u, hl, hu, h⟩ := Wiring.effects_cons h
  cases hl
  cases hu
  cases h
  rfl

theorem Settled.start1 {names : Nat → E} {server : Nat} {svc : Service T} (hs : Settled h w)
    (hi : i < h.n) (hw : w.effects (h.start1 i names server svc).pending = some w') :
    Settled (h.start1 i names server svc) w' := by
  obtain ⟨u, hu, hw⟩ := Wiring.effects_append hw
  obtain ⟨v, hv, hw⟩ := Wiring.effects_append hw
  have hc := hs.crash1 hi hu
  have hm := Wiring.effects_made hv
  rw [effects_service hw]
  have hself : ∀ j, (h.start1 i names server svc).endname i j = some (names j) := by
    intro j
    simp [Harness.start1, Harness.endname]
  have hother : ∀ k, k ≠ i → ∀ j, (h.start1 i names server svc).endname k j =
      (h.crash1 i).endname k j := by
    intro k hk j
    simp [Harness.start1, Harness.endname, hk]
  have hold : ∀ e k j, k < h.n → j < h.n → (h.crash1 i).endname k j = some e → ∀ j' < h.n,
      names j' ≠ e := by
    rintro e k j hk hj he j' hj' rfl
    have hmade := (hc.made _ k hk j hj he).1
    have hfresh := hm.fresh j' hj'
    rw [hmade] at hfresh
    cases hfresh
  have hoff : (h.start1 i names server svc).connected i = false := by
    simp [Harness.start1, Harness.crash1, Harness.disconnect]
  have hconn : ∀ k, (h.start1 i names server svc).connected k = true → k ≠ i := by
    rintro k hk rfl
    rw [hoff] at hk
    cases hk
  refine ⟨fun k hk => ?_, fun e k hk j hj k' hk' j' hj' he he' => ?_, fun e k hk j hj he => ?_,
    fun e => ?_, fun k => ?_⟩
  · have hnamed := hc.named k hk
    simpa [Harness.start1, hconn k hk] using hnamed
  · by_cases hki : k = i <;> by_cases hki' : k' = i
    · subst hki hki'
      rw [hself] at he he'
      exact ⟨rfl, hm.inj j hj j' hj' (Option.some.inj (he.trans he'.symm))⟩
    · subst hki
      rw [hself] at he
      rw [hother k' hki'] at he'
      cases he
      exact absurd rfl (hold _ k' j' hk' hj' he' j hj)
    · subst hki'
      rw [hself] at he'
      rw [hother k hki] at he
      cases he'
      exact absurd rfl (hold _ k j hk hj he j' hj')
    · rw [hother k hki] at he
      rw [hother k' hki'] at he'
      exact hc.inj e k hk j hj k' hk' j' hj' he he'
  · by_cases hki : k = i
    · subst hki
      rw [hself] at he
      cases he
      exact ⟨(hm.ends _).mpr (.inr ⟨j, hj, rfl⟩), hm.connected j hj⟩
    · rw [hother k hki] at he
      obtain ⟨hends, hto⟩ := hc.made e k hk j hj he
      exact ⟨(hm.ends e).mpr (.inl hends), (hm.other e (hold e k j hk hj he)).trans hto⟩
  · refine (hm.enabled e).trans ?_
    rw [hc.enabled]
    constructor
    · rintro ⟨⟨k, hk, j, hj, he, hck, hcj⟩, -⟩
      refine ⟨k, hk, j, hj, ?_, hck, hcj⟩
      rw [hother k (hconn k hck)]
      exact he
    · rintro ⟨k, hk, j, hj, he, hck, hcj⟩
      rw [hother k (hconn k hck)] at he
      exact ⟨⟨k, hk, j, hj, he, hck, hcj⟩, hold e k j hk hj he⟩
  · by_cases hk : k = i
    · simp [Harness.start1, hk]
    · have hserv := hc.servers k
      rw [← hm.servers] at hserv
      simpa [Harness.start1, hk] using hserv

end

/-! ## What a step does to the wiring -/

section
variable {G : Gob V T} {s s' : Network E Nat V T}

omit [DecidableEq E] in
theorem receive_wiring (k : Call E Nat V T) (m : ReplyMsg) :
    wiring (s.receive G k m).1 = wiring s := by
  unfold Network.receive
  split
  · simp only
    split <;> rfl
  · rfl

omit [DecidableEq E] in
theorem dispatch_wiring (k : Call E Nat V T) (o : Nat) (rs : Labrpc.Server T) :
    wiring (s.dispatch G k o rs).1 = wiring s := by
  unfold Network.dispatch
  simp only
  split
  · rfl
  · split
    · rfl
    · split <;> rfl

omit [DecidableEq E] in
theorem act_wiring [DecidableEq T] {k k' : Call E Nat V T} {a : Action V}
    (h : s.act G k a = some (s', k')) :
    wiring s' = wiring s := by
  cases a with
  | dispatch o =>
    simp only [Network.act] at h
    split at h
    · split at h
      · obtain ⟨rs, -, hr⟩ := Option.map_eq_some_iff.mp h
        have hw := dispatch_wiring (G := G) (s := s) k o rs
        rw [hr] at hw
        exact hw
      · cases h
    · cases h
  | reply m =>
    simp only [Network.act] at h
    split at h
    · split at h
      · have hw := receive_wiring (G := G) (s := s) { k with proc := .done } m
        rw [Option.some.inj h] at hw
        exact hw
      · cases h
    · cases h
  | fire m =>
    simp only [Network.act] at h
    split at h
    · split at h
      · have hw := receive_wiring (G := G) (s := s.addBytes m.reply) { k with timer := none } m
        rw [Option.some.inj h] at hw
        exact hw
      · cases h
    · cases h
  | check drop delay =>
    simp only [Network.act] at h
    split at h
    · cases h
      split <;> rfl
    · cases h
  | send | abort | finish =>
    simp only [Network.act] at h
    repeat' split at h
    all_goals cases h
    all_goals rfl
  | read | dropRequest | launch | answer | poll | drain =>
    simp only [Network.act] at h
    repeat' split at h
    all_goals cases h
    all_goals rfl

variable [DecidableEq T]

theorem traffic_wiring {l : Label E Nat V T} (hl : traffic l = true) (h : step G s l = some s') :
    wiring s' = wiring s := by
  have hfatal := step_fatal h
  unfold step at h
  rw [if_neg (by simp [hfatal])] at h
  cases l with
  | call c e m args reply =>
    simp only at h
    split at h <;> cases h
    unfold Network.call
    simp only
    split <;> rfl
  | act c a =>
    simp only at h
    split at h
    · cases h
    · obtain ⟨⟨s₁, k'⟩, ha, rfl⟩ := Option.map_eq_some_iff.mp h
      have hw := act_wiring ha
      exact hw
  | reliable | longReordering | longDelays =>
    cases h
    rfl
  | cleanup =>
    cases h
    unfold Network.cleanup
    split <;> rfl
  | stop =>
    simp only at h
    split at h <;> cases h
    rfl
  | _ => cases hl

theorem step_effect {l : Label E Nat V T} (h : step G s l = some s') (hf : s'.fatal = none) :
    (wiring s).effect l = some (wiring s') := by
  by_cases hl : traffic l = true
  · rw [traffic_wiring hl h]
    cases l <;> first | rfl | cases hl
  · have hfatal := step_fatal h
    unfold step at h
    rw [if_neg (by simp [hfatal])] at h
    cases l with
    | makeEnd e =>
      cases h
      unfold Network.makeEnd at hf ⊢
      split
      · rename_i he
        rw [if_pos he] at hf
        cases hf
      · rename_i he
        exact if_neg he
    | deleteEnd e =>
      cases h
      unfold Network.deleteEnd at hf ⊢
      split
      · rename_i he
        exact if_pos he
      · rename_i he
        rw [if_neg he] at hf
        cases hf
    | connect | enable | deleteServer =>
      cases h
      rfl
    | addServer n rs =>
      simp only at h
      split at h <;> cases h
      rfl
    | makeServer rs =>
      simp only at h
      split at h <;> cases h
      rfl
    | addService rs name svc =>
      obtain ⟨srv, -, rfl⟩ := Option.map_eq_some_iff.mp h
      rfl
    | _ => exact absurd rfl hl

end

end

end Csc412.Raft
