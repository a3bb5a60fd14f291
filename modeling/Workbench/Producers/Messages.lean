import Workbench.Lib.Threads

/-!
# `Producers.Messages` — `ex5.c`, one producer broadcasts messages to all consumers

Each consumer posts the semaphore when it is ready for the next message, and waits on the condition variable. The
producer waits for as many posts as there are consumers, changes the message and wakes them. A wait may also end for
no reason.

## Contents
* `Consumer`, `State`, `step` — the program, and the step of one thread;
* `Served`, `Inv` — how far a consumer is, and the invariant;
* `messages_in_order` — no consumer misses a message, or gets one twice;
* `messages_end` — every run comes to its end, if the waits do not end for no reason for ever.
-/

namespace Workbench.Producers.Messages

variable {ι : Type}

/-- What the producer does next. -/
inductive ProducerPc
  | loop
  | semWait (i : Nat)
  | lock
  | increment
  | broadcast
  | unlock
  | finished
  deriving DecidableEq

/-- What a consumer does next. -/
inductive ConsumerPc
  | loop
  | lock
  | semPost
  | test
  | wait
  | relock
  | print
  | unlock
  | store
  | finished
  deriving DecidableEq

structure Consumer where
  pc : ConsumerPc
  count : Nat
  localMsg : Nat
  /-- How often it posted the semaphore, and the messages that it printed. -/
  posts : Nat
  received : List Nat
  deriving DecidableEq

structure State (ι : Type) where
  sem : Nat
  message : Nat
  /-- The thread that holds the mutex: `none` is the producer. -/
  mutex : Option (Option ι)
  producer : ProducerPc
  count : Nat
  consumer : ι → Consumer

/-- A step of the producer, a step of a consumer, and the end of a wait for no reason. -/
inductive Label (ι : Type)
  | producer
  | consumer (c : ι)
  | wake (c : ι)

section Program

variable [Fintype ι] [DecidableEq ι]

/-- What `pthread_cond_broadcast` does to a consumer. -/
def Consumer.woken (x : Consumer) : Consumer := if x.pc = .wait then { x with pc := .relock } else x

def producerStep (s : State ι) : Option (State ι) :=
  match s.producer with
  | .loop =>
      if s.count = 0 then some { s with producer := .finished }
      else some { s with count := s.count - 1, producer := .semWait 0 }
  | .semWait i =>
      if i < Fintype.card ι then
        if 0 < s.sem then some { s with sem := s.sem - 1, producer := .semWait (i + 1) } else none
      else some { s with producer := .lock }
  | .lock => if s.mutex = none then some { s with mutex := some none, producer := .increment } else none
  | .increment => some { s with message := s.message + 1, producer := .broadcast }
  | .broadcast => some { s with consumer := fun c => (s.consumer c).woken, producer := .unlock }
  | .unlock => some { s with mutex := none, producer := .loop }
  | .finished => none

def State.set (s : State ι) (c : ι) (x : Consumer) : State ι := { s with consumer := Function.update s.consumer c x }

def consumerStep (s : State ι) (c : ι) : Option (State ι) :=
  let x := s.consumer c
  match x.pc with
  | .loop =>
      if x.count = 0 then some (s.set c { x with pc := .finished })
      else some (s.set c { x with count := x.count - 1, pc := .lock })
  | .lock => if s.mutex = none then some ({ s with mutex := some (some c) }.set c { x with pc := .semPost }) else none
  | .semPost => some ({ s with sem := s.sem + 1 }.set c { x with posts := x.posts + 1, pc := .test })
  | .test =>
      if x.localMsg = s.message then some ({ s with mutex := none }.set c { x with pc := .wait })
      else some (s.set c { x with pc := .print })
  | .wait => none
  | .relock => if s.mutex = none then some ({ s with mutex := some (some c) }.set c { x with pc := .test }) else none
  | .print => some (s.set c { x with received := x.received ++ [s.message], pc := .unlock })
  | .unlock => some ({ s with mutex := none }.set c { x with pc := .store })
  | .store => some (s.set c { x with localMsg := s.message, pc := .loop })
  | .finished => none

def step (s : State ι) : Label ι → Option (State ι)
  | .producer => producerStep s
  | .consumer c => consumerStep s c
  | .wake c => if (s.consumer c).pc = .wait then some (s.set c (s.consumer c).woken) else none

/-- The threads are created: the producer sends as many messages as each consumer waits for. -/
def Start (rounds : Nat) (s : State ι) : Prop := s = ⟨0, 0, none, .loop, rounds, fun _ => ⟨.loop, rounds, 0, 0, []⟩⟩

/-- The runs of the program. -/
def program (ι : Type) [Fintype ι] [DecidableEq ι] (rounds : Nat) : System (State ι) (Label ι) :=
  .ofThreads (Start rounds) step

end Program

/-! ## The invariant -/

namespace ProducerPc

/-- The posts that it has waited for, and has not used yet. -/
def taken (consumers : Nat) : ProducerPc → Nat
  | semWait i => i
  | lock | increment => consumers
  | _ => 0

/-- The message of this turn is not sent yet. -/
def sending : ProducerPc → Nat
  | semWait _ | lock | increment => 1
  | _ => 0

def inside : ProducerPc → Bool
  | increment | broadcast | unlock => true
  | _ => false

end ProducerPc

namespace ConsumerPc

/-- The post of this turn is made, and the message is not printed yet. -/
def posted : ConsumerPc → Nat
  | test | wait | relock | print => 1
  | _ => 0

/-- The message of this turn is not printed yet. -/
def expecting : ConsumerPc → Nat
  | lock | semPost | test | wait | relock | print => 1
  | _ => 0

/-- The message is printed, and not stored yet. -/
def printed : ConsumerPc → Bool
  | unlock | store => true
  | _ => false

def inside : ConsumerPc → Bool
  | semPost | test | print | unlock => true
  | _ => false

end ConsumerPc

/-- How far a consumer is, when the producer is at `p` and sent `message` messages. -/
structure Served (rounds message : Nat) (p : ProducerPc) (x : Consumer) : Prop where
  received : x.received = List.range' 1 x.received.length
  posts : x.posts = x.received.length + x.pc.posted
  le_message : x.received.length ≤ message
  message_le : message ≤ x.posts
  stored : x.pc.printed = false → x.localMsg = x.received.length
  print : x.pc = .print → x.received.length ≠ message
  /-- It does not sleep when there is a message for it, or the producer is about to wake it. -/
  wait : x.pc = .wait → x.received.length = message ∨ p = .broadcast
  count : x.received.length + x.pc.expecting + x.count = rounds
  finished : x.pc = .finished → x.count = 0

/-- The threads in the critical section. -/
def State.inside (s : State ι) : Option ι → Bool
  | none => s.producer.inside
  | some c => (s.consumer c).pc.inside

/-- The invariant. -/
structure Inv [Fintype ι] (rounds : Nat) (s : State ι) : Prop where
  guards : Guards id s.inside s.mutex
  served : ∀ c, Served rounds s.message s.producer (s.consumer c)
  /-- Each post is used, waited for, or in the semaphore. -/
  posts : s.sem + s.producer.taken (Fintype.card ι) + Fintype.card ι * s.message = ∑ c, (s.consumer c).posts
  taken_le : s.producer.taken (Fintype.card ι) ≤ Fintype.card ι
  count : s.message + s.producer.sending + s.count = rounds
  finished : s.producer = .finished → s.count = 0

variable {R m : Nat} {s s' : State ι} {p q : ProducerPc} {x y : Consumer} {c : ι}

theorem guards_producer [DecidableEq ι] (hconsumer : s'.consumer = s.consumer)
    (h : Guards id (Function.update s.inside none s'.producer.inside) s'.mutex) : Guards id s'.inside s'.mutex := by
  have hinside : s'.inside = Function.update s.inside none s'.producer.inside := by
    funext t
    cases t with
    | none => rw [Function.update_self, State.inside]
    | some c => rw [Function.update_of_ne (Option.some_ne_none c), State.inside, State.inside, hconsumer]
  rw [hinside]
  exact h

theorem guards_consumer [DecidableEq ι] (hproducer : s'.producer = s.producer)
    (hconsumer : s'.consumer = Function.update s.consumer c y)
    (h : Guards id (Function.update s.inside (some c) y.pc.inside) s'.mutex) : Guards id s'.inside s'.mutex := by
  have hinside : s'.inside = Function.update s.inside (some c) y.pc.inside := by
    funext t
    cases t with
    | none => rw [Function.update_of_ne (Option.some_ne_none c).symm, State.inside, State.inside, hproducer]
    | some d =>
        rw [State.inside, hconsumer]
        by_cases hd : d = c
        · subst hd
          rw [Function.update_self, Function.update_self]
        · rw [Function.update_of_ne hd, Function.update_of_ne (fun h => hd (Option.some.inj h)), State.inside]
  rw [hinside]
  exact h

/-! ### The producer -/

section Producer

variable [Fintype ι]

/-- The producer goes on, and does not leave a consumer asleep. -/
theorem Served.goes (h : Served R m p x) (hp : p ≠ .broadcast) : Served R m q x :=
  { h with wait := fun hw => .inl ((h.wait hw).resolve_right hp) }

theorem Served.woken (h : Served R m .broadcast x) : Served R m q x.woken := by
  unfold Consumer.woken
  split
  case isTrue hw =>
      have hposts := h.posts
      have hcount := h.count
      have hstored := h.stored
      rw [hw] at hposts hcount hstored
      exact { h with
        posts := hposts
        stored := hstored
        print := nofun
        wait := nofun
        count := hcount
        finished := nofun }
  case isFalse hw => exact { h with wait := fun h' => absurd h' hw }

/-- When the producer has all the posts it waits for, each consumer is ready for the next message. -/
theorem Inv.all_posted (h : Inv R s) (htaken : s.producer.taken (Fintype.card ι) = Fintype.card ι) (c : ι) :
    (s.consumer c).posts = s.message + 1 := by
  have hle : ∀ c, (s.consumer c).posts ≤ s.message + 1 := by
    intro c
    have hposts := (h.served c).posts
    have hreceived := (h.served c).le_message
    have hone : (s.consumer c).pc.posted ≤ 1 := by cases (s.consumer c).pc <;> simp [ConsumerPc.posted]
    omega
  have hsum : ∑ c, (s.consumer c).posts ≤ ∑ _c : ι, (s.message + 1) := Finset.sum_le_sum fun c _ => hle c
  have hposts := h.posts
  rw [htaken] at hposts
  have hall : ∑ c, (s.consumer c).posts = ∑ _c : ι, (s.message + 1) := by
    refine Nat.le_antisymm hsum ?_
    rw [Finset.sum_const_nat fun _ _ => rfl, Finset.card_univ, ← hposts, Nat.mul_succ]
    omega
  exact (Finset.sum_eq_sum_iff_of_le fun c _ => hle c).mp hall c (Finset.mem_univ c)

/-- The message is changed while each consumer waits for it. -/
theorem Served.increment (h : Served R m .increment x) (hposts : x.posts = m + 1) (hout : x.pc.inside = false) :
    Served R (m + 1) .broadcast x := by
  have hlength : x.received.length = m ∧ x.pc.posted = 1 := by
    have hsplit := h.posts
    have hreceived := h.le_message
    have hone : x.pc.posted ≤ 1 := by cases x.pc <;> simp [ConsumerPc.posted]
    omega
  refine { h with
    le_message := h.le_message.trans (Nat.le_succ m)
    message_le := hposts.ge
    print := fun hpc => ?_
    wait := fun _ => .inr rfl }
  rw [hpc] at hout
  cases hout

theorem Inv.producerGoes [DecidableEq ι] (h : Inv R s) (hstep : producerStep s = some s') : Inv R s' := by
  have hinside : s.inside none = s.producer.inside := rfl
  have hposts := h.posts
  have htaken := h.taken_le
  have hcount := h.count
  cases hpc : s.producer <;>
    simp only [producerStep, hpc, Option.ite_none_right_eq_some, Option.some.injEq, reduceCtorEq] at hstep <;>
    rw [hpc] at hinside hposts htaken hcount
  case loop =>
    split at hstep
    case isTrue hzero =>
        obtain rfl := Option.some.inj hstep
        exact {
          guards := guards_producer (s := s) rfl (h.guards.goes hinside rfl)
          served := fun c => (h.served c).goes (by rw [hpc]; nofun)
          posts := hposts
          taken_le := htaken
          count := hcount
          finished := fun _ => hzero }
    case isFalse hrest =>
        obtain rfl := Option.some.inj hstep
        refine {
          guards := guards_producer (s := s) rfl (h.guards.goes hinside rfl)
          served := fun c => (h.served c).goes (by rw [hpc]; nofun)
          posts := hposts
          taken_le := htaken
          count := ?_
          finished := nofun }
        dsimp only [ProducerPc.sending] at hcount ⊢
        omega
  case semWait i =>
    dsimp only [ProducerPc.taken] at hposts htaken
    split at hstep
    case isTrue hi =>
        obtain ⟨hsem, hstep⟩ := Option.ite_none_right_eq_some.mp hstep
        obtain rfl := Option.some.inj hstep
        refine {
          guards := guards_producer (s := s) rfl (h.guards.goes hinside rfl)
          served := fun c => (h.served c).goes (by rw [hpc]; nofun)
          posts := ?_
          taken_le := hi
          count := hcount
          finished := nofun }
        dsimp only [ProducerPc.taken]
        omega
    case isFalse hi =>
        obtain rfl := Option.some.inj hstep
        obtain rfl : i = Fintype.card ι := by omega
        exact {
          guards := guards_producer (s := s) rfl (h.guards.goes hinside rfl)
          served := fun c => (h.served c).goes (by rw [hpc]; nofun)
          posts := hposts
          taken_le := Nat.le_refl _
          count := hcount
          finished := nofun }
  case lock =>
    obtain ⟨hfree, rfl⟩ := hstep
    exact {
      guards := guards_producer (s := s) rfl (h.guards.lock hfree rfl)
      served := fun c => (h.served c).goes (by rw [hpc]; nofun)
      posts := hposts
      taken_le := htaken
      count := hcount
      finished := nofun }
  case increment =>
    subst hstep
    have hmutex : s.mutex = some none := (h.guards none).mp (by rw [hinside]; rfl)
    have hall := h.all_posted (by rw [hpc]; rfl)
    refine {
      guards := guards_producer (s := s) rfl (h.guards.goes hinside rfl)
      served := fun c => ?_
      posts := ?_
      taken_le := Nat.zero_le _
      count := ?_
      finished := nofun }
    · have hout : (s.consumer c).pc.inside = false :=
        Bool.eq_false_iff.mpr fun hin => nomatch ((h.guards (some c)).mp hin).symm.trans hmutex
      have hserved := h.served c
      rw [hpc] at hserved
      exact hserved.increment (hall c) hout
    · dsimp only [ProducerPc.taken] at hposts ⊢
      rw [Nat.mul_succ]
      omega
    · dsimp only [ProducerPc.sending] at hcount ⊢
      omega
  case broadcast =>
    subst hstep
    have hsame : ∀ c, ((s.consumer c).woken).pc.inside = (s.consumer c).pc.inside ∧
        ((s.consumer c).woken).posts = (s.consumer c).posts := by
      intro c
      unfold Consumer.woken
      split
      case isTrue hw => exact ⟨by rw [hw]; rfl, rfl⟩
      case isFalse => exact ⟨rfl, rfl⟩
    have hguards : ∀ t, State.inside { s with
        consumer := fun c => (s.consumer c).woken
        producer := .unlock } t = s.inside t := by
      rintro (_ | c)
      · exact hinside.symm
      · exact (hsame c).1
    exact {
      guards := by
        rw [funext hguards]
        exact h.guards
      served := fun c => Served.woken (hpc ▸ h.served c)
      posts := hposts.trans (Finset.sum_congr rfl fun c _ => (hsame c).2.symm)
      taken_le := htaken
      count := hcount
      finished := nofun }
  case unlock =>
    subst hstep
    exact {
      guards := guards_producer (s := s) rfl (h.guards.unlock hinside rfl rfl)
      served := fun c => (h.served c).goes (by rw [hpc]; nofun)
      posts := hposts
      taken_le := htaken
      count := hcount
      finished := nofun }

end Producer

/-! ### A consumer -/

variable [Fintype ι] [DecidableEq ι]

/-- One consumer goes on, and the permits that it gets are those that the semaphore loses. -/
theorem Inv.consumer (h : Inv R s) (hconsumer : s'.consumer = Function.update s.consumer c y)
    (hserved : Served R s.message s.producer y)
    (hguards : Guards id (Function.update s.inside (some c) y.pc.inside) s'.mutex)
    (hsem : s'.sem + (s.consumer c).posts = s.sem + y.posts) (hmessage : s'.message = s.message)
    (hproducer : s'.producer = s.producer) (hcount : s'.count = s.count) : Inv R s' := by
  have hsum := tally_update Consumer.posts s.consumer c y
  have hposts := h.posts
  refine ⟨guards_consumer hproducer hconsumer hguards, fun d => ?_, ?_, ?_, ?_, ?_⟩
  · rw [hmessage, hproducer, hconsumer]
    by_cases hd : d = c
    · subst hd
      rw [Function.update_self]
      exact hserved
    · rw [Function.update_of_ne hd]
      exact h.served d
  · rw [hproducer, hmessage, hconsumer]
    unfold tally at hsum
    omega
  · rw [hproducer]
    exact h.taken_le
  · rw [hmessage, hproducer, hcount]
    exact h.count
  · rw [hproducer, hcount]
    exact h.finished

omit [Fintype ι] [DecidableEq ι] in
/-- A consumer goes on to `r`, with nothing printed or posted. -/
theorem Served.moves {r : ConsumerPc} (h : Served R m p x) (hposted : r.posted = x.pc.posted)
    (hexpecting : r.expecting = x.pc.expecting) (hprinted : r.printed = false → x.pc.printed = false)
    (hprint : r = .print → x.received.length ≠ m) (hwait : r = .wait → x.received.length = m)
    (hfinished : r = .finished → x.count = 0) : Served R m p { x with pc := r } :=
  { h with
    posts := by rw [hposted]; exact h.posts
    stored := fun hr => h.stored (hprinted hr)
    print := hprint
    wait := fun hr => .inl (hwait hr)
    count := by rw [hexpecting]; exact h.count
    finished := hfinished }

theorem Inv.consumerGoes (h : Inv R s) (hstep : consumerStep s c = some s') : Inv R s' := by
  have hinside : s.inside (some c) = (s.consumer c).pc.inside := rfl
  have hserved := h.served c
  have hposts := hserved.posts
  have hle := hserved.le_message
  have hmessage := hserved.message_le
  have hcount := hserved.count
  cases hpc : (s.consumer c).pc <;>
    simp only [consumerStep, hpc, Option.ite_none_right_eq_some, Option.some.injEq, reduceCtorEq] at hstep <;>
    rw [hpc] at hinside hposts hcount
  case loop =>
    split at hstep
    case isTrue hzero =>
        obtain rfl := Option.some.inj hstep
        exact h.consumer rfl (hserved.moves (by rw [hpc]; rfl) (by rw [hpc]; rfl) (by rw [hpc]; exact id) nofun nofun
          fun _ => hzero) (h.guards.goes hinside rfl) rfl rfl rfl rfl
    case isFalse hrest =>
        obtain rfl := Option.some.inj hstep
        have hstored := hserved.stored (by rw [hpc]; rfl)
        refine h.consumer rfl { hserved with
          posts := hposts
          stored := fun _ => hstored
          print := nofun
          wait := nofun
          count := ?_
          finished := nofun } (h.guards.goes hinside rfl) rfl rfl rfl rfl
        dsimp only [ConsumerPc.expecting] at hcount ⊢
        omega
  case lock =>
    obtain ⟨hfree, rfl⟩ := hstep
    exact h.consumer rfl (hserved.moves (by rw [hpc]; rfl) (by rw [hpc]; rfl) (by rw [hpc]; exact id) nofun nofun nofun)
      (h.guards.lock hfree rfl) rfl rfl rfl rfl
  case semPost =>
    subst hstep
    have hstored := hserved.stored (by rw [hpc]; rfl)
    exact h.consumer rfl { hserved with
      posts := congrArg Nat.succ hposts
      message_le := hmessage.trans (Nat.le_succ _)
      stored := fun _ => hstored
      print := nofun
      wait := nofun
      count := hcount
      finished := nofun } (h.guards.goes hinside rfl) (by dsimp only [State.set]; omega) rfl rfl rfl
  case test =>
    have hstored := hserved.stored (by rw [hpc]; rfl)
    split at hstep
    case isTrue hsame =>
        obtain rfl := Option.some.inj hstep
        exact h.consumer rfl (hserved.moves (by rw [hpc]; rfl) (by rw [hpc]; rfl) (by rw [hpc]; exact id) nofun
          (fun _ => hstored.symm.trans hsame) nofun) (h.guards.unlock hinside rfl rfl) rfl rfl rfl rfl
    case isFalse hother =>
        obtain rfl := Option.some.inj hstep
        exact h.consumer rfl (hserved.moves (by rw [hpc]; rfl) (by rw [hpc]; rfl) (by rw [hpc]; exact id)
          (fun _ hsame => hother (hstored.trans hsame)) nofun nofun) (h.guards.goes hinside rfl) rfl rfl rfl rfl
  case relock =>
    obtain ⟨hfree, rfl⟩ := hstep
    exact h.consumer rfl (hserved.moves (by rw [hpc]; rfl) (by rw [hpc]; rfl) (by rw [hpc]; exact id) nofun nofun nofun)
      (h.guards.lock hfree rfl) rfl rfl rfl rfl
  case print =>
    subst hstep
    -- the message is the one after those that it printed
    have hnext : s.message = (s.consumer c).received.length + 1 := by
      have hne := hserved.print hpc
      dsimp only [ConsumerPc.posted] at hposts
      omega
    refine h.consumer rfl {
      received := ?_
      posts := ?_
      le_message := ?_
      message_le := hmessage
      stored := nofun
      print := nofun
      wait := nofun
      count := ?_
      finished := nofun } (h.guards.goes hinside rfl) rfl rfl rfl rfl
    all_goals
      dsimp only
      rw [List.length_append, List.length_singleton]
    · rw [List.range'_concat, ← hserved.received, hnext, Nat.one_mul, Nat.add_comm]
    · exact hposts
    · exact hnext.ge
    · exact hcount
  case unlock =>
    subst hstep
    exact h.consumer rfl (hserved.moves (by rw [hpc]; rfl) (by rw [hpc]; rfl) nofun nofun nofun nofun)
      (h.guards.unlock hinside rfl rfl) rfl rfl rfl rfl
  case store =>
    subst hstep
    -- it did not post again, and so the message is still the one that it printed
    have hsame : s.message = (s.consumer c).received.length := by
      dsimp only [ConsumerPc.posted] at hposts
      omega
    exact h.consumer rfl { hserved with
      posts := hposts
      stored := fun _ => hsame
      print := nofun
      wait := nofun
      count := hcount
      finished := nofun } (h.guards.goes hinside rfl) rfl rfl rfl rfl

/-- A wait that ends for no reason. -/
theorem Inv.wake (h : Inv R s) (hpc : (s.consumer c).pc = .wait) : Inv R (s.set c (s.consumer c).woken) := by
  have hinside : s.inside (some c) = false := by rw [State.inside, hpc]; rfl
  rw [Consumer.woken, if_pos hpc]
  exact h.consumer rfl ((h.served c).moves (by rw [hpc]; rfl) (by rw [hpc]; rfl) (by rw [hpc]; exact id) nofun nofun
    nofun) (h.guards.goes hinside rfl) rfl rfl rfl rfl

theorem Inv.step {a : Label ι} (h : Inv R s) (hstep : step s a = some s') : Inv R s' := by
  cases a with
  | producer => exact h.producerGoes hstep
  | consumer c => exact h.consumerGoes hstep
  | wake c =>
      obtain ⟨hpc, hstep⟩ := Option.ite_none_right_eq_some.mp hstep
      obtain rfl := Option.some.inj hstep
      exact h.wake hpc

omit [DecidableEq ι] in
theorem inv_start (hstart : Start R s) : Inv R s := by
  obtain rfl := hstart
  refine ⟨?_, fun c => ?_, ?_, Nat.zero_le _, Nat.zero_add R, nofun⟩
  · refine .free fun t => ?_
    cases t <;> rfl
  · exact ⟨rfl, rfl, Nat.le_refl 0, Nat.le_refl 0, fun _ => rfl, nofun, nofun, Nat.zero_add R, nofun⟩
  · simp [ProducerPc.taken]

theorem inv_reachable (h : (program ι R).Reachable System.Any s) : Inv R s :=
  System.invariant (fun _ h => inv_start h) (fun _ _ _ h _ hstep => h.step hstep) h

/-! ## What the consumers get -/

/-- **No consumer misses a message, or gets one twice**, in any order of the steps, and whenever a wait ends for no
    reason:

    * what a consumer printed are the messages from the first one on;
    * it is at most one message behind: the next message waits for all of them. -/
theorem messages_in_order (h : (program ι R).Reachable System.Any s) (c : ι) :
    (s.consumer c).received = List.range' 1 (s.consumer c).received.length ∧
      (s.consumer c).received.length ≤ s.message ∧ s.message ≤ (s.consumer c).received.length + 1 ∧ s.message ≤ R := by
  have hinv := inv_reachable h
  obtain ⟨hreceived, hposts, hle, hmessage, -, -, -, -, -⟩ := hinv.served c
  have hcount := hinv.count
  have hone : (s.consumer c).pc.posted ≤ 1 := by cases (s.consumer c).pc <;> simp [ConsumerPc.posted]
  exact ⟨hreceived, hle, by omega, by omega⟩

/-- The second consumer prints the first message, after a wait that ended for no reason, and is ready for the next
    message before the first consumer printed one. -/
theorem messages_sample : ∃ s : State (Fin 2), (s.consumer 1).received = [1] ∧
    (s.consumer 1).received = List.range' 1 (s.consumer 1).received.length ∧
      (s.consumer 1).received.length ≤ s.message ∧ s.message ≤ (s.consumer 1).received.length + 1 ∧ s.message ≤ 2 := by
  obtain ⟨s, hreachable, hstate⟩ := System.exists_reachable (Start 2) step System.Any rfl
    (List.replicate 4 (.consumer 1) ++ [.wake 1, .consumer 1, .consumer 1] ++ List.replicate 4 (.consumer 0) ++
      List.replicate 8 .producer ++ List.replicate 6 (.consumer 1))
    (fun s : State (Fin 2) => decide ((s.consumer 1).received = [1])) (by decide)
  exact ⟨s, of_decide_eq_true hstate, messages_in_order hreachable 1⟩

/-! ## The end of the program -/

/-- The wait does not end for no reason. -/
def Quiet (_ : State ι) : Label ι → Prop
  | .wake _ => False
  | _ => True

instance (s : State ι) : (a : Label ι) → Decidable (Quiet s a)
  | .producer => .isTrue trivial
  | .consumer _ => .isTrue trivial
  | .wake _ => .isFalse id

/-- How many steps the producer has left, those included that its messages give to the consumers. -/
def ProducerPc.work (consumers : Nat) : ProducerPc → Nat
  | semWait i => 6 + 2 * consumers + (consumers - i)
  | lock => 5 + 2 * consumers
  | increment => 4 + 2 * consumers
  | broadcast => 3 + 2 * consumers
  | unlock => 2
  | loop => 1
  | finished => 0

def ConsumerPc.work : ConsumerPc → Nat
  | lock => 8
  | semPost => 7
  | relock => 7
  | test => 6
  | wait => 5
  | print => 4
  | unlock => 3
  | store => 2
  | loop => 1
  | finished => 0

def Consumer.work (x : Consumer) : Nat := 8 * x.count + x.pc.work

/-- How many steps are left at most. -/
def State.work (s : State ι) : Nat :=
  (6 + 3 * Fintype.card ι) * s.count + s.producer.work (Fintype.card ι) + ∑ c, (s.consumer c).work

omit [DecidableEq ι] in
theorem producerStep_work (hstep : producerStep s = some s') : s'.work < s.work := by
  cases hpc : s.producer <;>
    simp only [producerStep, hpc, Option.ite_none_right_eq_some, Option.some.injEq, reduceCtorEq] at hstep
  case loop =>
    split at hstep
    case isTrue =>
        obtain rfl := Option.some.inj hstep
        simp only [State.work, ProducerPc.work, hpc]
        omega
    case isFalse hrest =>
        obtain rfl := Option.some.inj hstep
        have hturn : (6 + 3 * Fintype.card ι) * s.count =
            (6 + 3 * Fintype.card ι) * (s.count - 1) + (6 + 3 * Fintype.card ι) := by
          rw [← Nat.mul_succ, Nat.succ_eq_add_one, Nat.sub_add_cancel (Nat.pos_of_ne_zero hrest)]
        simp only [State.work, ProducerPc.work, hpc]
        omega
  case semWait i =>
    split at hstep
    case isTrue hi =>
        obtain ⟨-, hstep⟩ := Option.ite_none_right_eq_some.mp hstep
        obtain rfl := Option.some.inj hstep
        simp only [State.work, ProducerPc.work, hpc]
        omega
    case isFalse =>
        obtain rfl := Option.some.inj hstep
        simp only [State.work, ProducerPc.work, hpc]
        omega
  case lock =>
    obtain ⟨-, rfl⟩ := hstep
    simp only [State.work, ProducerPc.work, hpc]
    omega
  case increment | unlock =>
    subst hstep
    simp only [State.work, ProducerPc.work, hpc]
    omega
  case broadcast =>
    subst hstep
    -- each consumer that is woken has two steps more
    have hwoken : ∑ c, ((s.consumer c).woken).work ≤ ∑ c, ((s.consumer c).work + 2) := by
      refine Finset.sum_le_sum fun c _ => ?_
      unfold Consumer.woken
      split
      case isTrue hw =>
          simp only [Consumer.work, hw, ConsumerPc.work]
          omega
      case isFalse => exact Nat.le_add_right _ 2
    rw [Finset.sum_add_distrib, Finset.sum_const_nat fun _ _ => rfl, Finset.card_univ] at hwoken
    simp only [State.work, ProducerPc.work, hpc]
    omega

theorem set_work (hconsumer : s'.consumer = Function.update s.consumer c y) (hproducer : s'.producer = s.producer)
    (hcount : s'.count = s.count) (hless : y.work < (s.consumer c).work) : s'.work < s.work := by
  have hsum := tally_update Consumer.work s.consumer c y
  rw [State.work, State.work, hproducer, hcount, hconsumer]
  unfold tally at hsum
  omega

theorem consumerStep_work (hstep : consumerStep s c = some s') : s'.work < s.work := by
  cases hpc : (s.consumer c).pc <;>
    simp only [consumerStep, hpc, Option.ite_none_right_eq_some, Option.some.injEq, reduceCtorEq] at hstep
  case loop =>
    split at hstep
    case isTrue =>
        obtain rfl := Option.some.inj hstep
        exact set_work rfl rfl rfl (by simp only [Consumer.work, ConsumerPc.work, hpc]; omega)
    case isFalse =>
        obtain rfl := Option.some.inj hstep
        exact set_work rfl rfl rfl (by simp only [Consumer.work, ConsumerPc.work, hpc]; omega)
  case test =>
    split at hstep
    case isTrue =>
        obtain rfl := Option.some.inj hstep
        exact set_work rfl rfl rfl (by simp only [Consumer.work, ConsumerPc.work, hpc]; omega)
    case isFalse =>
        obtain rfl := Option.some.inj hstep
        exact set_work rfl rfl rfl (by simp only [Consumer.work, ConsumerPc.work, hpc]; omega)
  case lock | relock =>
    obtain ⟨-, rfl⟩ := hstep
    exact set_work rfl rfl rfl (by simp only [Consumer.work, ConsumerPc.work, hpc]; omega)
  case semPost | print | unlock | store =>
    subst hstep
    exact set_work rfl rfl rfl (by simp only [Consumer.work, ConsumerPc.work, hpc]; omega)

theorem step_work {a : Label ι} (hquiet : Quiet s a) (hstep : step s a = some s') : s'.work < s.work := by
  cases a with
  | producer => exact producerStep_work hstep
  | consumer c => exact consumerStep_work hstep
  | wake c => exact hquiet.elim

/-- When nobody can go on, nobody holds the mutex: the thread that holds it would go on. -/
theorem Inv.unlocked (h : Inv R s) (hproducer : producerStep s = none) (hconsumer : ∀ c, consumerStep s c = none) :
    s.mutex = none := by
  cases hmutex : s.mutex with
  | none => rfl
  | some t =>
      have hin := (h.guards t).mpr hmutex
      cases t with
      | none =>
          rw [id, State.inside] at hin
          cases hpc : s.producer <;> rw [hpc] at hin <;>
            simp [ProducerPc.inside, producerStep, hpc] at hin hproducer
      | some c =>
          have hnone := hconsumer c
          rw [id, State.inside] at hin
          cases hpc : (s.consumer c).pc <;> rw [hpc] at hin <;>
            simp [ConsumerPc.inside, consumerStep, hpc] at hin hnone
          case test => split at hnone <;> cases hnone

/-- **There is no deadlock**: when nobody can go on, all threads are finished. -/
theorem Inv.stuck (h : Inv R s) (hproducer : producerStep s = none) (hconsumer : ∀ c, consumerStep s c = none) :
    s.producer = .finished ∧ ∀ c, (s.consumer c).pc = .finished := by
  have hfree := h.unlocked hproducer hconsumer
  have hblocked : ∀ c, (s.consumer c).pc = .wait ∨ (s.consumer c).pc = .finished := by
    intro c
    have hnone := hconsumer c
    cases hpc : (s.consumer c).pc <;> simp [consumerStep, hpc, hfree] at hnone ⊢
    case loop | test => split at hnone <;> cases hnone
  have hposts := h.posts
  have hcount := h.count
  -- a consumer that is finished got all the messages, and one that waits got those that were sent
  have hlast : ∀ c, (s.consumer c).pc = .finished → s.message = R := by
    intro c hpc
    have hserved := h.served c
    have hcountc := hserved.count
    rw [hpc, hserved.finished hpc] at hcountc
    dsimp only [ConsumerPc.expecting] at hcountc
    have hle := hserved.le_message
    omega
  have hwait : ∀ c, (s.consumer c).pc = .wait → s.producer ≠ .broadcast →
      (s.consumer c).posts = s.message + 1 ∧ s.message < R := by
    intro c hpc hp
    have hserved := h.served c
    have hpostsc := hserved.posts
    have hcountc := hserved.count
    have hsame := (hserved.wait hpc).resolve_right hp
    rw [hpc] at hpostsc hcountc
    dsimp only [ConsumerPc.posted, ConsumerPc.expecting] at hpostsc hcountc
    omega
  cases hpc : s.producer <;> simp [producerStep, hpc, hfree] at hproducer
  case loop => split at hproducer <;> cases hproducer
  case semWait i =>
    split at hproducer
    case isFalse => cases hproducer
    have hi : i < Fintype.card ι := ‹_›
    have hsem : s.sem = 0 := by
      split at hproducer
      case isTrue => cases hproducer
      case isFalse hzero => exact Nat.eq_zero_of_not_pos hzero
    rw [hpc] at hposts hcount
    dsimp only [ProducerPc.taken, ProducerPc.sending] at hposts hcount
    have hall : ∀ c ∈ Finset.univ, (s.consumer c).posts = s.message + 1 := by
      intro c _
      rcases hblocked c with hc | hc
      · exact (hwait c hc (by rw [hpc]; nofun)).1
      · have := hlast c hc
        omega
    rw [Finset.sum_const_nat hall, Finset.card_univ, Nat.mul_succ, hsem] at hposts
    omega
  case finished =>
    refine ⟨rfl, fun c => (hblocked c).resolve_left fun hc => ?_⟩
    rw [hpc, h.finished hpc] at hcount
    dsimp only [ProducerPc.sending] at hcount
    have := (hwait c hc (by rw [hpc]; nofun)).2
    omega

/-- **The program comes to its end**, from every state that it may come to. When no wait ends for no reason from there
    on, it takes at most `s.work` steps, and when nobody can take one more, all threads are finished, and each consumer
    has printed all the messages in order. -/
theorem messages_end (h : (program ι R).Reachable System.Any s) {schedule : List (Label ι)}
    (hrun : System.run step Quiet schedule s = some s') :
    schedule.length + s'.work ≤ s.work ∧
      ((∀ a, Quiet s' a → step s' a = none) →
        s'.producer = .finished ∧
          ∀ c, (s'.consumer c).pc = .finished ∧ (s'.consumer c).received = List.range' 1 R) := by
  have hlength := System.schedule_length_le State.work (fun _ _ _ => step_work) hrun
  have hinv : Inv R s' := System.schedule_invariant (fun _ _ _ h _ hstep => h.step hstep) (inv_reachable h) hrun
  refine ⟨hlength, fun hstuck => ?_⟩
  obtain ⟨hproducer, hconsumer⟩ := hinv.stuck (hstuck .producer trivial) fun c => hstuck (.consumer c) trivial
  refine ⟨hproducer, fun c => ⟨hconsumer c, ?_⟩⟩
  have hserved := hinv.served c
  have hcount := hserved.count
  rw [hconsumer c, hserved.finished (hconsumer c)] at hcount
  rw [hserved.received, show (s'.consumer c).received.length = R from hcount]

/-- One consumer and one message. -/
theorem messages_end_sample : ∃ s' : State (Fin 1), (s'.consumer 0).received = [1] ∧ 18 + s'.work ≤ 19 := by
  obtain ⟨s', hrun, hstate⟩ := (Option.any_eq_true _ _).mp (show Option.any
    (fun s' : State (Fin 1) => decide (s'.producer = .finished ∧ (s'.consumer 0).pc = .finished))
    (System.run step Quiet
      (List.replicate 4 (.consumer 0) ++ List.replicate 8 .producer ++ List.replicate 6 (.consumer 0))
      ⟨0, 0, none, .loop, 1, fun _ => ⟨.loop, 1, 0, 0, []⟩⟩) = true by decide)
  obtain ⟨hproducer, hconsumer⟩ := of_decide_eq_true hstate
  obtain ⟨hlength, hend⟩ := messages_end (R := 1) (.init rfl) hrun
  have hstuck : ∀ a, Quiet s' a → step s' a = none := by
    rintro (_ | c | c) hquiet
    · simp [step, producerStep, hproducer]
    · obtain rfl : c = 0 := Subsingleton.elim c 0
      simp [step, consumerStep, hconsumer]
    · exact hquiet.elim
  exact ⟨s', ((hend hstuck).2 0).2, hlength⟩

end Workbench.Producers.Messages
