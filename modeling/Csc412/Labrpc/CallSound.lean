import Csc412.Labrpc.Network

/-!
# The goroutines of one call

What a trace says about a call, and what an action can do to its record. Each call
goes through its own goroutines one way only: the handler of one server is asked, and
one message is sent back on `replyCh`.
-/

namespace Csc412.Labrpc

section
variable {E N V T : Type}

/-! ## What a trace says about a call -/

def Label.on (c : Nat) : Label E N V T → Option (Action V)
  | .act c' a => if c' = c then some a else none
  | _ => none

def Label.opens (c : Nat) : Label E N V T → Option (E × String × V × V)
  | .call c' e m args reply => if c' = c then some (e, m, args, reply) else none
  | _ => none

def Action.dispatched : Action V → Option Nat
  | .dispatch server => some server
  | _ => none

def Action.returned : Action V → Option V
  | .finish v => some v
  | _ => none

def Action.replied : Action V → Option ReplyMsg
  | .reply m | .fire m => some m
  | _ => none

def opened (c : Nat) (ls : List (Label E N V T)) : List (E × String × V × V) :=
  ls.filterMap (Label.opens c)
def acts (c : Nat) (ls : List (Label E N V T)) : List (Action V) := ls.filterMap (Label.on c)

/-- The servers that were asked to handle call `c`, what its handler left in the reply
and the messages on its `replyCh`. -/
def dispatches (c : Nat) (ls : List (Label E N V T)) : List Nat :=
  (acts c ls).filterMap Action.dispatched
def returns (c : Nat) (ls : List (Label E N V T)) : List V := (acts c ls).filterMap Action.returned
def replies (c : Nat) (ls : List (Label E N V T)) : List ReplyMsg :=
  (acts c ls).filterMap Action.replied

def Label.serves : Label E N V T → Option Nat
  | .act _ a => a.dispatched
  | _ => none

def served (ls : List (Label E N V T)) : List Nat := ls.filterMap Label.serves

theorem filterMap_snoc {α β : Type} (f : α → Option β) (l : List α) (a : α) :
    (l ++ [a]).filterMap f = l.filterMap f ++ (f a).toList := by
  rw [List.filterMap_append]
  cases h : f a <;> simp [h]

section
variable {c : Nat} {ls : List (Label E N V T)} {l : Label E N V T} {a : Action V}

theorem opened_snoc : opened c (ls ++ [l]) = opened c ls ++ (l.opens c).toList :=
  filterMap_snoc _ ls l

theorem acts_snoc : acts c (ls ++ [l]) = acts c ls ++ (l.on c).toList := filterMap_snoc _ ls l

theorem acts_other (h : l.on c = none) : acts c (ls ++ [l]) = acts c ls := by simp [acts_snoc, h]

theorem acts_act : acts c (ls ++ [.act c a]) = acts c ls ++ [a] := by simp [acts_snoc, Label.on]

theorem dispatches_act :
    dispatches c (ls ++ [.act c a]) = dispatches c ls ++ a.dispatched.toList := by
  rw [dispatches, acts_act]
  exact filterMap_snoc _ _ a

theorem dispatches_append (l₁ l₂ : List (Label E N V T)) :
    dispatches c (l₁ ++ l₂) = dispatches c l₁ ++ dispatches c l₂ := by
  simp only [dispatches, acts, List.filterMap_append]

theorem returns_append (l₁ l₂ : List (Label E N V T)) :
    returns c (l₁ ++ l₂) = returns c l₁ ++ returns c l₂ := by
  simp only [returns, acts, List.filterMap_append]

theorem returns_act : returns c (ls ++ [.act c a]) = returns c ls ++ a.returned.toList := by
  rw [returns, acts_act]
  exact filterMap_snoc _ _ a

theorem replies_act : replies c (ls ++ [.act c a]) = replies c ls ++ a.replied.toList := by
  rw [replies, acts_act]
  exact filterMap_snoc _ _ a

end

/-! ## What an action does -/

inductive Received (G : Gob V T) (k : Call E N V T) (m : ReplyMsg) : Call E N V T → Prop
  | lost : m.ok = false → Received G k m { k with client := .returned false }
  | decoded {v} : m.ok = true → G.decode m.reply k.reply = (v, true) →
      Received G k m { k with reply := v, client := .returned true }
  | garbled {v} : m.ok = true → Received G k m { k with reply := v, client := .failed }

/-- Everything an action can do to the record of its call. -/
inductive Acted (G : Gob V T) (s : Network E N V T) (k : Call E N V T) :
    Action V → Call E N V T → Prop
  | send : k.client = .sending → Acted G s k .send { k with client := .waiting, proc := .started }
  | abort : k.client = .sending → Acted G s k .abort { k with client := .returned false }
  | connected {t} : k.proc = .started → s.readEndnameInfo k.req.endname = some t →
      Acted G s k .read { k with proc := .connected t }
  | unconnected : k.proc = .started → s.readEndnameInfo k.req.endname = none →
      Acted G s k .read { k with proc := .done, timer := some failure }
  | dropRequest {t} : k.proc = .connected t →
    Acted G s k .dropRequest { k with proc := .replying failure }
  | launch {t} : k.proc = .connected t →
      Acted G s k .launch { k with proc := .waiting t, handler := .called t.server }
  | dispatch {o replyType args} : k.handler = .called o →
      Acted G s k (.dispatch o) { k with handler := .running o replyType args }
  | died {o} : k.handler = .called o → Acted G s k (.dispatch o) { k with handler := .failed o }
  | finish {o replyType args v} : k.handler = .running o replyType args →
      Acted G s k (.finish v) { k with handler := .sending o ⟨true, (G.encode v).1⟩ }
  | answer {t o m} : k.proc = .waiting t → k.handler = .sending o m →
      Acted G s k .answer { k with proc := .leaving t (some m), handler := .done o }
  | alive : Acted G s k .poll k
  | dead {t} : k.proc = .waiting t →
    Acted G s k .poll { k with proc := .leaving t none, drain := true }
  | drain {o m} : k.handler = .sending o m → k.drain = true →
      Acted G s k .drain { k with handler := .done o, drain := false }
  | refuse {t reply drop delay} : k.proc = .leaving t reply →
      Acted G s k (.check drop delay) { k with proc := .replying failure, timer := none }
  | approve {t m drop delay} : k.proc = .leaving t (some m) →
      s.isServerDead k.req.endname t.servername t.server = false →
      Acted G s k (.check drop delay) { k with proc := .replying m, timer := none }
  | delay {t m drop delay} : k.proc = .leaving t (some m) →
      s.isServerDead k.req.endname t.servername t.server = false →
      Acted G s k (.check drop delay) { k with proc := .done, timer := some m }
  | reply {m k'} : k.proc = .replying m → k.client = .waiting →
    Received G { k with proc := .done } m k' →
      Acted G s k (.reply m) k'
  | fire {m k'} : k.timer = some m → k.client = .waiting →
    Received G { k with timer := none } m k' →
      Acted G s k (.fire m) k'

variable {G : Gob V T}

def Network.countOf (s : Network E N V T) (o : Nat) : BitVec 64 :=
  ((s.objects o).map Server.count).getD 0

/-- What an action leaves of the rest of the network: the other calls, the registered
servers and, up to the server it is dispatched to, the counts. -/
structure Kept (s : Network E N V T) (a : Action V) (s₁ : Network E N V T) : Prop where
  calls : s₁.calls = s.calls
  servers : s₁.servers = s.servers
  exist : ∀ o, (s₁.objects o).isSome = (s.objects o).isSome
  counts : ∀ o, s₁.countOf o = s.countOf o + if a.dispatched = some o then 1 else 0

theorem Kept.same {s s₁ : Network E N V T} {a : Action V} (h₁ : s₁.calls = s.calls)
    (h₂ : s₁.servers = s.servers) (h₃ : s₁.objects = s.objects) (ha : a.dispatched = none) :
    Kept s a s₁ := by
  refine ⟨h₁, h₂, fun o => by rw [h₃], fun o => ?_⟩
  rw [Network.countOf, h₃, ha, if_neg (Option.some_ne_none o).symm]
  exact (BitVec.add_zero _).symm

theorem receive_spec (s : Network E N V T) (k : Call E N V T) (m : ReplyMsg) (a : Action V)
    (ha : a.dispatched = none) :
    Kept s a (s.receive G k m).1 ∧ Received G k m (s.receive G k m).2 := by
  unfold Network.receive
  split
  · rename_i hok
    simp only
    split
    · rename_i hd
      exact ⟨.same rfl rfl rfl ha, .decoded hok (Prod.ext rfl hd)⟩
    · exact ⟨.same rfl rfl rfl ha, .garbled hok⟩
  · rename_i hok
    exact ⟨.same rfl rfl rfl ha, .lost (by simpa using hok)⟩

theorem dispatch_spec {s : Network E N V T} {k : Call E N V T} {o : Nat}
    (hk : k.handler = .called o) {rs : Server T} (hrs : s.objects o = some rs) :
    Kept s (.dispatch o : Action V) (s.dispatch G k o rs).1 ∧
    Acted G s k (.dispatch o) (s.dispatch G k o rs).2 := by
  have hkept : ∀ s₁ : Network E N V T, s₁.calls = s.calls → s₁.servers = s.servers →
      s₁.objects = Function.update s.objects o (some { rs with count := rs.count + 1 }) →
      Kept s (.dispatch o : Action V) s₁ := by
    intro s₁ h₁ h₂ h₃
    refine ⟨h₁, h₂, fun o' => ?_, fun o' => ?_⟩
    · rw [h₃, Function.update_apply]
      split
      · rename_i ho
        rw [ho, hrs]
        rfl
      · rfl
    · rw [Network.countOf, Network.countOf, h₃, Function.update_apply]
      split
      · rename_i ho
        rw [ho, hrs]
        simp [Action.dispatched]
      · rename_i ho
        simp [Action.dispatched, Ne.symm ho]
  unfold Network.dispatch
  simp only
  split
  · exact ⟨hkept _ rfl rfl rfl, .died hk⟩
  · split
    · exact ⟨hkept _ rfl rfl rfl, .died hk⟩
    · split
      · exact ⟨hkept _ rfl rfl rfl, .died hk⟩
      · exact ⟨hkept _ rfl rfl rfl, .dispatch hk⟩

theorem check_spec (s : Network E N V T) {k : Call E N V T} {t : Target N} {reply : Option ReplyMsg}
    (hk : k.proc = .leaving t reply) (drop delay : Bool) :
    Acted G s k (.check drop delay) { k with
      proc := (outcome t reply (s.isServerDead k.req.endname t.servername t.server) drop delay).1
      timer := (outcome t reply (s.isServerDead k.req.endname t.servername t.server) drop delay).2
          } := by
  unfold outcome
  split
  · exact .refuse hk
  · rename_i m
    split
    · exact .refuse hk
    · rename_i hdead
      have halive : s.isServerDead k.req.endname t.servername t.server = false := by
        simpa using hdead
      split
      · exact .refuse hk
      · split
        · exact .delay hk halive
        · exact .approve hk halive

theorem act_spec [DecidableEq T] {s s₁ : Network E N V T} {k k' : Call E N V T} {a : Action V}
    (h : s.act G k a = some (s₁, k')) : Kept s a s₁ ∧ Acted G s k a k' := by
  cases a with
  | send =>
    simp only [Network.act] at h
    split at h <;> cases h
    rename_i hc
    exact ⟨.same rfl rfl rfl rfl, .send hc.1⟩
  | abort =>
    simp only [Network.act] at h
    split at h <;> cases h
    rename_i hc
    exact ⟨.same rfl rfl rfl rfl, .abort hc.1⟩
  | read =>
    simp only [Network.act] at h
    split at h
    · rename_i hp
      split at h <;> cases h
      · rename_i ht
        exact ⟨.same rfl rfl rfl rfl, .connected hp ht⟩
      · rename_i ht
        exact ⟨.same rfl rfl rfl rfl, .unconnected hp ht⟩
    · cases h
  | dropRequest =>
    simp only [Network.act] at h
    split at h
    · rename_i hp
      split at h <;> cases h
      exact ⟨.same rfl rfl rfl rfl, .dropRequest hp⟩
    · cases h
  | launch =>
    simp only [Network.act] at h
    split at h <;> cases h
    rename_i hp
    exact ⟨.same rfl rfl rfl rfl, .launch hp⟩
  | dispatch o =>
    simp only [Network.act] at h
    split at h
    · rename_i hh
      split at h
      · rename_i ho
        subst ho
        obtain ⟨rs, hrs, hr⟩ := Option.map_eq_some_iff.mp h
        have hspec := dispatch_spec (G := G) hh hrs
        rw [hr] at hspec
        exact hspec
      · cases h
    · cases h
  | finish v =>
    simp only [Network.act] at h
    split at h
    · rename_i hh
      split at h <;> cases h
      exact ⟨.same rfl rfl rfl rfl, .finish hh⟩
    · cases h
  | answer =>
    simp only [Network.act] at h
    split at h <;> cases h
    rename_i hp hh
    exact ⟨.same rfl rfl rfl rfl, .answer hp hh⟩
  | poll =>
    simp only [Network.act] at h
    split at h
    · rename_i hp
      split at h <;> cases h
      · exact ⟨.same rfl rfl rfl rfl, .dead hp⟩
      · exact ⟨.same rfl rfl rfl rfl, .alive⟩
    · cases h
  | drain =>
    simp only [Network.act] at h
    split at h
    · rename_i hh
      split at h <;> cases h
      rename_i hd
      exact ⟨.same rfl rfl rfl rfl, .drain hh hd⟩
    · cases h
  | check drop delay =>
    simp only [Network.act] at h
    split at h <;> cases h
    rename_i hp
    refine ⟨?_, check_spec s hp drop delay⟩
    split <;> exact .same rfl rfl rfl rfl
  | reply m =>
    simp only [Network.act] at h
    split at h
    · rename_i hp
      split at h
      · rename_i hm
        obtain ⟨rfl, hw⟩ := hm
        have hspec := receive_spec (G := G) s { k with proc := .done } m (.reply m) rfl
        rw [Option.some.inj h] at hspec
        exact ⟨hspec.1, .reply hp hw hspec.2⟩
      · cases h
    · cases h
  | fire m =>
    simp only [Network.act] at h
    split at h
    · rename_i hp
      split at h
      · rename_i hm
        obtain ⟨rfl, hw⟩ := hm
        have hspec := receive_spec (G := G) (s.addBytes m.reply) { k with timer := none } m
          (.fire m) rfl
        rw [Option.some.inj h] at hspec
        exact ⟨⟨hspec.1.calls, hspec.1.servers, hspec.1.exist, hspec.1.counts⟩, .fire hp hw hspec.2⟩
      · cases h
    · cases h

/-! ## The record of a call -/

def Dispatch.server : Dispatch V T → Option Nat
  | .unborn => none
  | .called o | .running o _ _ | .failed o | .sending o _ | .done o => some o

def ProcessReq.target : ProcessReq N → Option (Target N)
  | .connected t | .waiting t | .leaving t _ => some t
  | _ => none

def Call.pending (k : Call E N V T) : List ReplyMsg :=
  (match k.proc with
    | .replying m => [m]
    | _ => []) ++ k.timer.toList

/-- `ech` carries what the handler of the one server that was asked left. -/
def HandlerOk (G : Gob V T) (asked : List Nat) (left : List V) : Dispatch V T → Prop
  | .unborn | .called _ => asked = [] ∧ left = []
  | .running o _ _ | .failed o => asked = [o] ∧ left = []
  | .sending o m => asked = [o] ∧ ∃ v, left = [v] ∧ m = ⟨true, (G.encode v).1⟩
  | .done o => asked = [o] ∧ ∃ v, left = [v]

/-- One message is sent on `replyCh` for a request that the network has taken. -/
def RepliesOk (k : Call E N V T) (sent : List ReplyMsg) : Prop :=
  match k.client with
  | .sending => k.proc = .unborn ∧ k.timer = none ∧ sent = []
  | .waiting => k.proc ≠ .unborn ∧ sent = [] ∧ (k.proc = .done ↔ k.timer ≠ none)
  | .returned ok => k.timer = none ∧
    (k.proc = .unborn ∧ sent = [] ∧ ok = false ∨ k.proc = .done ∧ ∃ m, sent = [m] ∧ m.ok = ok)
  | .failed => k.timer = none ∧ k.proc = .done ∧ ∃ m, sent = [m]

/-- How far the dispatching goroutine is when `processReq` is at some point. -/
def ProcOk (G : Gob V T) (left : List V) (k : Call E N V T) : Prop :=
  match k.proc with
  | .unborn | .started | .connected _ => k.handler = .unborn ∧ k.drain = false
  | .waiting t => k.handler.server = some t.server ∧ (∀ o, k.handler ≠ .done o) ∧ k.drain = false
  | .leaving t (some m) => k.handler = .done t.server ∧ ∃ v, left = [v] ∧ m = ⟨true, (G.encode v).1⟩
  | .leaving _ none | .replying _ | .done => True

def VarOk (G : Gob V T) (k : Call E N V T) (reply : V) (sent : List ReplyMsg) : Prop :=
  match k.client with
  | .returned true => ∃ m, sent = [m] ∧ G.decode m.reply reply = (k.reply, true)
  | .failed => True
  | _ => k.reply = reply

section
variable {s : Network E N V T} {k k' : Call E N V T} {a : Action V} {asked : List Nat}
    {left : List V} {sent : List ReplyMsg}

theorem HandlerOk.step (h : HandlerOk G asked left k.handler) (hp : ProcOk G left k)
    (ha : Acted G s k a k') :
    HandlerOk G (asked ++ a.dispatched.toList) (left ++ a.returned.toList) k'.handler := by
  cases ha with
  | launch hc =>
    rw [ProcOk, hc] at hp
    rw [hp.1] at h
    simpa [HandlerOk, Action.dispatched, Action.returned] using h
  | dispatch hh | died hh =>
    rw [hh] at h
    simp [HandlerOk, Action.dispatched, Action.returned, h.1, h.2]
  | finish hh =>
    rw [hh] at h
    simp [HandlerOk, Action.dispatched, Action.returned, h.1, h.2]
  | answer hw hh | drain hh hd =>
    rw [hh] at h
    obtain ⟨h₁, v, hv, -⟩ := h
    simp [HandlerOk, Action.dispatched, Action.returned, h₁, hv]
  | reply hr hw hrec | fire hr hw hrec =>
    cases hrec <;> simpa [Action.dispatched, Action.returned] using h
  | _ => simpa [Action.dispatched, Action.returned] using h

theorem RepliesOk.running (h : RepliesOk k sent) (h₁ : k.proc ≠ .unborn) (h₂ : k.proc ≠ .done) :
    k.client = .waiting ∧ sent = [] ∧ k.timer = none := by
  unfold RepliesOk at h
  split at h
  · exact absurd h.1 h₁
  · rename_i hc
    exact ⟨hc, h.2.1, by simpa [h₂] using h.2.2⟩
  · rcases h.2 with ⟨hu, -⟩ | ⟨hd, -⟩
    · exact absurd hu h₁
    · exact absurd hd h₂
  · exact absurd h.2.1 h₂

theorem RepliesOk.step (h : RepliesOk k sent) (ha : Acted G s k a k') :
    RepliesOk k' (sent ++ a.replied.toList) := by
  have hrun : ∀ {pc}, k.proc = pc → pc ≠ .unborn → pc ≠ .done → k.client = .waiting ∧ sent = [] ∧
      k.timer = none := by
    rintro pc rfl h₁ h₂
    exact h.running h₁ h₂
  cases ha with
  | send hc =>
    rw [RepliesOk, hc] at h
    simp [RepliesOk, Action.replied, h.2.1, h.2.2]
  | abort hc =>
    rw [RepliesOk, hc] at h
    simp [RepliesOk, Action.replied, h.1, h.2.1, h.2.2]
  | connected hp ht | unconnected hp ht | dropRequest hp | launch hp | answer hp hh | dead hp
  | refuse hp | approve hp ha | delay hp ha =>
    obtain ⟨h₁, h₂, h₃⟩ := hrun hp (by simp) (by simp)
    simp [RepliesOk, Action.replied, h₁, h₂, h₃]
  | reply hp hw hrec =>
    obtain ⟨-, h₂, h₃⟩ := hrun hp (by simp) (by simp)
    cases hrec <;> simp_all [RepliesOk, Action.replied]
  | fire ht hw hrec =>
    rw [RepliesOk, hw] at h
    obtain ⟨-, h₂, h₃⟩ := h
    have hd := h₃.mpr (by simp [ht])
    cases hrec <;> simp_all [RepliesOk, Action.replied]
  | _ => simpa [RepliesOk, Action.replied] using h

theorem ProcOk.handler (h : ProcOk G left k) (h₁ : k.handler ≠ .unborn)
    (h₂ : ∀ o, k.handler ≠ .done o) {d : Dispatch V T} (hs : d.server = k.handler.server) {b : Bool}
    (hd : k.drain = false → (∀ o, d ≠ .done o) ∧ b = false) (left' : List V) :
    ProcOk G left' { k with handler := d, drain := b } := by
  unfold ProcOk at h ⊢
  cases hp : k.proc with
  | unborn | started | connected =>
    rw [hp] at h
    exact absurd h.1 h₁
  | waiting t =>
    rw [hp] at h
    exact ⟨hs.trans h.1, hd h.2.2⟩
  | leaving t reply =>
    rw [hp] at h
    cases reply with
    | none => trivial
    | some m => exact absurd h.1 (h₂ _)
  | replying | done => trivial

theorem ProcOk.step (h : ProcOk G left k) (hh : HandlerOk G asked left k.handler)
    (hr : RepliesOk k sent) (ha : Acted G s k a k') : ProcOk G (left ++ a.returned.toList) k' := by
  have hat : ∀ {pc}, k.proc = pc → ProcOk G left { k with proc := pc } := by
    rintro pc rfl
    exact h
  cases ha with
  | send hc =>
    rw [RepliesOk, hc] at hr
    exact hat hr.1
  | connected hp ht => exact hat hp
  | launch hp =>
    obtain ⟨-, hd⟩ := hat hp
    exact ⟨rfl, by simp, hd⟩
  | dispatch hd =>
    exact h.handler (by simp [hd]) (by simp [hd]) (by rw [hd]; rfl) (fun hf => ⟨by simp, hf⟩) _
  | died hd =>
    exact h.handler (by simp [hd]) (by simp [hd]) (by rw [hd]; rfl) (fun hf => ⟨by simp, hf⟩) _
  | finish hd =>
    exact h.handler (by simp [hd]) (by simp [hd]) (by rw [hd]; rfl) (fun hf => ⟨by simp, hf⟩) _
  | drain hs hd =>
    exact h.handler (by simp [hs]) (by simp [hs]) (by rw [hs]; rfl) (fun hf => by simp [hd] at hf) _
  | answer hp hs =>
    obtain ⟨hserver, -⟩ := hat hp
    rw [hs] at hh hserver
    cases hserver
    simpa [ProcOk, Action.returned] using hh.2
  | dead hp => trivial
  | refuse hp => trivial
  | approve hp ha => trivial
  | delay hp ha => trivial
  | unconnected hp ht => trivial
  | dropRequest hp => trivial
  | reply hp hw hrec => cases hrec <;> trivial
  | fire ht hw hrec => cases hrec <;> simpa [ProcOk, Action.returned] using h
  | abort hc => simpa [ProcOk, Action.returned] using h
  | alive => simpa [Action.returned] using h

theorem VarOk.step {reply : V} (h : VarOk G k reply sent) (hr : RepliesOk k sent)
    (ha : Acted G s k a k') :
    VarOk G k' reply (sent ++ a.replied.toList) := by
  have hwait : k.client = .waiting → k.reply = reply ∧ sent = [] := by
    intro hw
    rw [VarOk, hw] at h
    rw [RepliesOk, hw] at hr
    exact ⟨h, hr.2.1⟩
  cases ha with
  | send hc | abort hc =>
    rw [VarOk, hc] at h
    exact h
  | reply hp hw hrec | fire ht hw hrec =>
    obtain ⟨h₁, h₂⟩ := hwait hw
    cases hrec with
    | lost hok => exact h₁
    | decoded hok hd =>
      refine ⟨_, by rw [h₂]; rfl, ?_⟩
      rw [← h₁]
      exact hd
    | garbled hok => trivial
  | _ => simpa [VarOk, Action.replied] using h

theorem Acted.handler_done (ha : Acted G s k a k') (hp : ProcOk G left k) {o : Nat}
    (h : k.handler = .done o) :
    k'.handler = .done o ∧ a.returned = none ∧ a.dispatched = none := by
  cases ha with
  | launch hc =>
    rw [ProcOk, hc] at hp
    rw [h] at hp
    cases hp.1
  | dispatch hd | died hd | finish hd | drain hd =>
    rw [h] at hd
    cases hd
  | answer hw hs =>
    rw [h] at hs
    cases hs
  | reply hr hw hrec | fire hr hw hrec => cases hrec <;> exact ⟨h, rfl, rfl⟩
  | _ => exact ⟨h, rfl, rfl⟩

theorem Acted.req (ha : Acted G s k a k') : k'.req = k.req := by
  cases ha with
  | reply hr hw hrec | fire hr hw hrec => cases hrec <;> rfl
  | _ => rfl

theorem Acted.pending (ha : Acted G s k a k') {m : ReplyMsg}
    (hm : m ∈ a.replied.toList ++ k'.pending) (hok : m.ok = true) :
    m ∈ k.pending ∨ ∃ t, k.proc = .leaving t (some m) ∧
    s.isServerDead k.req.endname t.servername t.server = false := by
  have hfail : m ≠ failure := by
    rintro rfl
    cases hok
  cases ha with
  | approve hp hal =>
    simp only [Action.replied, Call.pending, Option.toList, List.nil_append, List.append_nil,
      List.mem_singleton] at hm
    subst hm
    exact .inr ⟨_, hp, hal⟩
  | delay hp hal =>
    simp only [Action.replied, Call.pending, Option.toList, List.nil_append,
      List.mem_singleton] at hm
    subst hm
    exact .inr ⟨_, hp, hal⟩
  | reply hp hw hrec => cases hrec <;> simp_all [Call.pending, Action.replied]
  | fire ht hw hrec =>
    left
    cases hrec <;> simp_all [Call.pending, Action.replied, or_comm]
  | _ => simp_all [Call.pending, Action.replied]

end

end

end Csc412.Labrpc
