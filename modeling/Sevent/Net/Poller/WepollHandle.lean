/-
# The handles of wepoll

`sevent/net/poller/wepoll/wepoll.c`: `reflock_t`, `ts_tree_t`, and `epoll_create`,
`epoll_ctl`, `epoll_wait` and `epoll_close` as far as they use these.

A call finds its port by the handle, in a tree under a lock, and uses the port after
it has left the lock.  `epoll_close` takes the port out of the tree, waits until no
call uses it any more, and frees it.  A `reflock_t` is one `long`: the calls that use
the port are counted in the lower 28 bits, and the bit above them says that somebody
is waiting to destroy it.

Each access to the tree and each `Interlocked` operation is a step of one thread, in
any order with the steps of the others; where an assertion fails or memory that is
free is used there is none.  A port is used while its memory is there, by any number of
threads below `2 ^ 28`, and is freed once nobody has it (`port_lifetime`).
-/

import Mathlib.Data.BitVec
import Sevent.Lib.Places
import Sevent.Lib.Run

namespace Sevent
namespace Net
namespace Wepoll
namespace Handle

open Transition Places

/-! ### `reflock_t` -/

/-- What one reference adds to the lock. -/
def REFLOCK_REF : BitVec 32 := 0x00000001

/-- The bits in which the references are counted. -/
def REFLOCK_REF_MASK : BitVec 32 := 0x0fffffff

/-- What the thread that destroys adds to the lock; the bit above the count. -/
def REFLOCK_DESTROY : BitVec 32 := 0x10000000

/-- The bits above the count. One of them set is the destruction of the object,
any other a count that went below zero or the poison. -/
def REFLOCK_DESTROY_MASK : BitVec 32 := 0xf0000000

/-- What the lock has once the object is given up; every later use of it fails
an assertion. -/
def REFLOCK_POISON : BitVec 32 := 0x300dead0

/-- `reflock_ref`. -/
def reflock_ref (state : BitVec 32) : Option (BitVec 32) :=
  let state := state + REFLOCK_REF
  if state &&& REFLOCK_DESTROY_MASK = 0 then some state else none

/-- `reflock_unref`, and whether it signals. -/
def reflock_unref (state : BitVec 32) : Option (BitVec 32 × Bool) :=
  let state := state - REFLOCK_REF
  if state &&& REFLOCK_DESTROY_MASK &&& ~~~REFLOCK_DESTROY = 0 then
    some (state, state == REFLOCK_DESTROY)
  else none

/-- `reflock_unref_and_destroy` up to where it waits, and whether it does. -/
def reflock_unref_and_destroy (state : BitVec 32) : Option (BitVec 32 × Bool) :=
  let state := state + (REFLOCK_DESTROY - REFLOCK_REF)
  if state &&& REFLOCK_DESTROY_MASK = REFLOCK_DESTROY then
    some (state, state &&& REFLOCK_REF_MASK != 0)
  else none

/-- The rest of it. -/
def reflock_poison (state : BitVec 32) : Option (BitVec 32) :=
  if state = REFLOCK_DESTROY then some REFLOCK_POISON else none

/-! ### The threads -/

/-- Where a thread is: inside a call with a port, in `reflock_signal_event`, or in `epoll_close`
behind `ts_tree_del_and_ref`, in `reflock_await_event`, behind it, and behind
`ts_tree_node_unref_and_destroy`. -/
inductive Place
  | out
  | inside (node : ℕ)
  | signalling (node : ℕ)
  | closing (node : ℕ)
  | awaiting (node : ℕ)
  | awake (node : ℕ)
  | deleting (node : ℕ)
  deriving DecidableEq

/-- The port that a thread has. -/
def Place.node : Place → Option ℕ
  | .out => none
  | .inside n | .signalling n | .closing n | .awaiting n | .awake n | .deleting n => some n

/-- The tree of the handles, the memory of the ports with their locks, and the
threads. -/
structure State (N : ℕ) where
  handles : ℕ → Option ℕ
  nodes : ℕ → Option (BitVec 32)
  threads : Fin N → Place

variable {N : ℕ}

/-- Nothing is made yet, and every thread is outside. -/
def State.init : State N := ⟨fun _ => none, fun _ => none, fun _ => .out⟩

/-- What a thread does next. -/
inductive Event (N : ℕ)
  | create (t : Fin N) (handle node : ℕ)
  | find (t : Fin N) (handle : ℕ)
  | unref (t : Fin N)
  | close (t : Fin N) (handle : ℕ)
  | destroy (t : Fin N)
  | wake (t t' : Fin N)
  | poison (t : Fin N)
  | free (t : Fin N)

namespace State

/-- One thread goes to another place, the others stay. -/
def goTo (s : State N) (t : Fin N) (place : Place) : State N :=
  { s with threads := Function.update s.threads t place }

/-- One lock is written, the others stay. -/
def setNode (s : State N) (n : ℕ) (state : BitVec 32) : State N :=
  { s with nodes := Function.update s.nodes n (some state) }

/-- What can happen.  A new handle and new memory are not in use; a signal is given to
a thread that waits for it, and both wait for each other. -/
def possible (s : State N) : Event N → Bool
  | .create t handle node =>
    s.threads t == .out && (s.handles handle).isNone && (s.nodes node).isNone
  | .find t _ | .close t _ => s.threads t == .out
  | .unref t => match s.threads t with | .inside _ => true | _ => false
  | .destroy t => match s.threads t with | .closing _ => true | _ => false
  | .wake t t' =>
    match s.threads t, s.threads t' with
    | .signalling n, .awaiting n' => n == n'
    | _, _ => false
  | .poison t => match s.threads t with | .awake _ => true | _ => false
  | .free t => match s.threads t with | .deleting _ => true | _ => false

/-- What a thread does to the tree and to the lock of a port. There is no step
where an assertion of `reflock_t` fails or memory that is free is used. -/
def step (s : State N) : Event N → Option (State N)
  -- `epoll__create` with `ts_tree_add`
  | .create _ handle node => some { s with
      handles := Function.update s.handles handle (some node)
      nodes := Function.update s.nodes node (some 0) }
  -- `ts_tree_find_and_ref` in `epoll_ctl` and `epoll_wait`
  | .find t handle =>
    match s.handles handle with
    | none => some s
    | some n =>
      match s.nodes n with
      | none => none
      | some state => (reflock_ref state).map fun state => (s.setNode n state).goTo t (.inside n)
  -- `ts_tree_node_unref`
  | .unref t =>
    match s.threads t with
    | .inside n =>
      match s.nodes n with
      | none => none
      | some state => (reflock_unref state).map fun r =>
          (s.setNode n r.1).goTo t (if r.2 then .signalling n else .out)
    | _ => none
  -- `ts_tree_del_and_ref` in `epoll_close`
  | .close t handle =>
    match s.handles handle with
    | none => some s
    | some n =>
      match s.nodes n with
      | none => none
      | some state => (reflock_ref state).map fun state =>
          { (s.setNode n state).goTo t (.closing n) with
            handles := Function.update s.handles handle none }
  -- `ts_tree_node_unref_and_destroy`
  | .destroy t =>
    match s.threads t with
    | .closing n =>
      match s.nodes n with
      | none => none
      | some state => (reflock_unref_and_destroy state).map fun r =>
          (s.setNode n r.1).goTo t (if r.2 then .awaiting n else .awake n)
    | _ => none
  -- `NtReleaseKeyedEvent` and `NtWaitForKeyedEvent`
  | .wake t t' =>
    match s.threads t' with
    | .awaiting n => some ((s.goTo t .out).goTo t' (.awake n))
    | _ => none
  | .poison t =>
    match s.threads t with
    | .awake n =>
      match s.nodes n with
      | none => none
      | some state => (reflock_poison state).map fun state =>
          (s.setNode n state).goTo t (.deleting n)
    | _ => none
  -- `port_delete`
  | .free t =>
    match s.threads t with
    | .deleting n => some { s.goTo t .out with nodes := Function.update s.nodes n none }
    | _ => none

end State

/-! ### The bits -/

/-- A number below `2 ^ j` has none of the bits from `j` up. -/
theorem ofNat_and_eq_zero {k j : ℕ} (hk : k < 2 ^ j) {mask : BitVec 32}
    (hmask : ∀ i < j, mask.getLsbD i = false) : BitVec.ofNat 32 k &&& mask = 0 := by
  refine BitVec.eq_of_getLsbD_eq fun i hi => ?_
  rw [BitVec.getLsbD_and, show ((0 : BitVec 32)).getLsbD i = false from BitVec.getLsbD_zero]
  by_cases hlow : i < j
  · rw [hmask i hlow, Bool.and_false]
  · rw [BitVec.getLsbD_ofNat, Nat.testBit_lt_two_pow, Bool.and_false, Bool.false_and]
    exact hk.trans_le (Nat.pow_le_pow_right (by decide) (by omega))

/-- A count that fits its 28 bits sets none of the bits above. -/
theorem ofNat_and_destroy_mask {k : ℕ} (h : k < 2 ^ 28) :
    BitVec.ofNat 32 k &&& REFLOCK_DESTROY_MASK = 0 := ofNat_and_eq_zero h (by decide)

/-- Adding a count to the bit above it is setting both: they do not overlap. -/
theorem destroy_add {k : ℕ} (h : k < 2 ^ 28) :
    REFLOCK_DESTROY + BitVec.ofNat 32 k = REFLOCK_DESTROY ||| BitVec.ofNat 32 k := by
  refine BitVec.add_eq_or_of_and_eq_zero _ _ ?_
  rw [BitVec.and_comm]
  exact ofNat_and_eq_zero h (by decide)

/-- With the bit above set, the lock is exactly that bit when nobody has the
object any more, which is what `reflock_unref` compares for. -/
theorem destroy_add_eq_iff {k : ℕ} (h : k < 2 ^ 28) :
    REFLOCK_DESTROY + BitVec.ofNat 32 k = REFLOCK_DESTROY ↔ k = 0 := by
  rw [add_eq_left, ← BitVec.toNat_inj, BitVec.toNat_ofNat]
  change k % 2 ^ 32 = 0 ↔ k = 0
  omega

/-- A count alone is never the bit above it, so a thread that goes before
anybody destroys does not signal. -/
theorem ofNat_ne_destroy {k : ℕ} (h : k < 2 ^ 28) : BitVec.ofNat 32 k ≠ REFLOCK_DESTROY := by
  intro heq
  have := congrArg BitVec.toNat heq
  rw [BitVec.toNat_ofNat] at this
  change k % 2 ^ 32 = 2 ^ 28 at this
  omega

/-- The bits of the two parts of a lock can be taken apart. -/
theorem destroy_or_and (x mask : BitVec 32) :
    (REFLOCK_DESTROY ||| x) &&& mask = (REFLOCK_DESTROY &&& mask) ||| (x &&& mask) := by
  refine BitVec.eq_of_getLsbD_eq fun i hi => ?_
  simp only [BitVec.getLsbD_and, BitVec.getLsbD_or]
  exact Bool.and_or_distrib_right ..

/-- The bit stands above the count. -/
theorem destroy_add_and_destroy_mask {k : ℕ} (h : k < 2 ^ 28) :
    (REFLOCK_DESTROY + BitVec.ofNat 32 k) &&& REFLOCK_DESTROY_MASK = REFLOCK_DESTROY := by
  rw [destroy_add h, destroy_or_and, ofNat_and_destroy_mask h]
  decide

/-- The count of a lock whose object is to be destroyed, which is how the
destroying thread learns whether it has to wait. -/
theorem destroy_add_and_ref_mask {k : ℕ} (h : k < 2 ^ 28) :
    (REFLOCK_DESTROY + BitVec.ofNat 32 k) &&& REFLOCK_REF_MASK = BitVec.ofNat 32 k := by
  rw [destroy_add h, destroy_or_and, show REFLOCK_DESTROY &&& REFLOCK_REF_MASK = 0 by decide]
  refine BitVec.eq_of_toNat_eq ?_
  change (0#32 ||| _).toNat = _
  rw [BitVec.zero_or, BitVec.toNat_and, BitVec.toNat_ofNat]
  change (k % 2 ^ 32) &&& (2 ^ 28 - 1) = k % 2 ^ 32
  rw [Nat.and_two_pow_sub_one_eq_mod]
  omega

/-! ### What the lock does -/

/-- One more thread comes in: the assertion holds, and the count is one more. -/
theorem reflock_ref_ofNat {k : ℕ} (h : k + 1 < 2 ^ 28) :
    reflock_ref (BitVec.ofNat 32 k) = some (BitVec.ofNat 32 (k + 1)) := by
  have hadd : BitVec.ofNat 32 k + REFLOCK_REF = BitVec.ofNat 32 (k + 1) :=
    (BitVec.ofNat_add _ _).symm
  simp only [reflock_ref, hadd, ofNat_and_destroy_mask h, if_true]

/-- One reference less, on a count that has it. -/
theorem ofNat_succ_sub (k : ℕ) : BitVec.ofNat 32 (k + 1) - REFLOCK_REF = BitVec.ofNat 32 k := by
  rw [BitVec.ofNat_add]
  exact BitVec.add_sub_cancel _ _

/-- A thread goes before anybody destroys: the assertion holds, and it does not
signal. -/
theorem reflock_unref_ofNat {k : ℕ} (h : k < 2 ^ 28) :
    reflock_unref (BitVec.ofNat 32 (k + 1)) = some (BitVec.ofNat 32 k, false) := by
  have hbits : 0 &&& ~~~REFLOCK_DESTROY = 0 := by decide
  simp only [reflock_unref, ofNat_succ_sub, ofNat_and_destroy_mask h, hbits, if_true,
    beq_eq_false_iff_ne.2 (ofNat_ne_destroy h)]

/-- The last reference signals. -/
theorem reflock_unref_destroy {k : ℕ} (h : k < 2 ^ 28) :
    reflock_unref (REFLOCK_DESTROY + BitVec.ofNat 32 (k + 1)) =
      some (REFLOCK_DESTROY + BitVec.ofNat 32 k, k == 0) := by
  have hsub : REFLOCK_DESTROY + BitVec.ofNat 32 (k + 1) - REFLOCK_REF =
      REFLOCK_DESTROY + BitVec.ofNat 32 k := by
    rw [add_sub_assoc, ofNat_succ_sub]
  have hsignal : (REFLOCK_DESTROY + BitVec.ofNat 32 k == REFLOCK_DESTROY) = (k == 0) := by
    rw [Bool.eq_iff_iff, beq_iff_eq, beq_iff_eq]
    exact destroy_add_eq_iff h
  have hbits : REFLOCK_DESTROY &&& ~~~REFLOCK_DESTROY = 0 := by decide
  simp only [reflock_unref, hsub, destroy_add_and_destroy_mask h, hbits, hsignal, if_true]

/-- The thread that destroys gives up its own reference at the same time, and
waits if there are others. -/
theorem reflock_unref_and_destroy_ofNat {k : ℕ} (h : k < 2 ^ 28) :
    reflock_unref_and_destroy (BitVec.ofNat 32 (k + 1)) =
      some (REFLOCK_DESTROY + BitVec.ofNat 32 k, k != 0) := by
  have hadd : BitVec.ofNat 32 (k + 1) + (REFLOCK_DESTROY - REFLOCK_REF) =
      REFLOCK_DESTROY + BitVec.ofNat 32 k := by
    rw [← ofNat_succ_sub k]
    exact add_sub_left_comm ..
  have hcount : (BitVec.ofNat 32 k != 0) = (k != 0) := by
    rw [Bool.eq_iff_iff, bne_iff_ne, bne_iff_ne, ne_eq, ← BitVec.toNat_inj, BitVec.toNat_ofNat]
    change ¬k % 2 ^ 32 = 0 ↔ ¬k = 0
    omega
  simp only [reflock_unref_and_destroy, hadd, destroy_add_and_destroy_mask h,
    destroy_add_and_ref_mask h, hcount, if_true]

/-! ### The phases of a port -/

/-- How many threads are at each place of a port. -/
structure Held (threads : Fin N → Place) (n k closing signalling awaiting awake deleting : ℕ) :
    Prop where
  inside : count threads (.inside n) = k
  closing : count threads (.closing n) = closing
  signalling : count threads (.signalling n) = signalling
  awaiting : count threads (.awaiting n) = awaiting
  awake : count threads (.awake n) = awake
  deleting : count threads (.deleting n) = deleting

namespace State

/-- The tree has the port, so a call by its handle finds it. -/
def Listed (s : State N) (n : ℕ) : Prop := ∃ handle, s.handles handle = some n

/-- The lock of a port, whether it is in the tree, and the threads that have it. -/
inductive Phase (s : State N) (n : ℕ) : Prop
  | unused (hv : s.nodes n = none) (hlisted : ¬s.Listed n) (hheld : Held s.threads n 0 0 0 0 0 0)
  | listed (k : ℕ) (hv : s.nodes n = some (BitVec.ofNat 32 k)) (hlisted : s.Listed n)
      (hheld : Held s.threads n k 0 0 0 0 0)
  | closing (k : ℕ) (hv : s.nodes n = some (BitVec.ofNat 32 (k + 1))) (hlisted : ¬s.Listed n)
      (hheld : Held s.threads n k 1 0 0 0 0)
  -- somebody uses it still, or the last one is about to signal
  | awaiting (k : ℕ) (hv : s.nodes n = some (REFLOCK_DESTROY + BitVec.ofNat 32 k))
      (hlisted : ¬s.Listed n) (hheld : Held s.threads n k 0 (if k = 0 then 1 else 0) 1 0 0)
  | awake (hv : s.nodes n = some REFLOCK_DESTROY) (hlisted : ¬s.Listed n)
      (hheld : Held s.threads n 0 0 0 0 1 0)
  | deleting (hv : s.nodes n = some REFLOCK_POISON) (hlisted : ¬s.Listed n)
      (hheld : Held s.threads n 0 0 0 0 0 1)

/-- Each port is in one of the phases, and no port is in the tree under two
handles, so it is taken out once. -/
structure Inv (s : State N) : Prop where
  phase : ∀ n, s.Phase n
  inj : ∀ h h' n, s.handles h = some n → s.handles h' = some n → h = h'

variable {s s' : State N} {n : ℕ} {t : Fin N} {p q : Place}

end State

/-! ### Threads that go -/

variable {threads threads' : Fin N → Place} {n k : ℕ} {t : Fin N} {p q : Place}

/-- The threads at a port are counted alike in two states whose threads are, so
a step at another port does not matter. -/
theorem Held.congr {c g a w d : ℕ} (h : Held threads n k c g a w d)
    (hcount : ∀ p : Place, p.node = some n → count threads' p = count threads p) :
    Held threads' n k c g a w d where
  inside := (hcount _ rfl).trans h.inside
  closing := (hcount _ rfl).trans h.closing
  signalling := (hcount _ rfl).trans h.signalling
  awaiting := (hcount _ rfl).trans h.awaiting
  awake := (hcount _ rfl).trans h.awake
  deleting := (hcount _ rfl).trans h.deleting

/-- A thread goes from one place of a port to another, or comes, or goes out. -/
theorem Held.update {k' c g a w d c' g' a' w' d' : ℕ} (h : Held threads n k c g a w d)
    (ht : threads t = p)
    (hk : k' + (if p = .inside n then 1 else 0) = k + if q = .inside n then 1 else 0)
    (hc : c' + (if p = .closing n then 1 else 0) = c + if q = .closing n then 1 else 0)
    (hg : g' + (if p = .signalling n then 1 else 0) = g + if q = .signalling n then 1 else 0)
    (ha : a' + (if p = .awaiting n then 1 else 0) = a + if q = .awaiting n then 1 else 0)
    (hw : w' + (if p = .awake n then 1 else 0) = w + if q = .awake n then 1 else 0)
    (hd : d' + (if p = .deleting n then 1 else 0) = d + if q = .deleting n then 1 else 0) :
    Held (Function.update threads t q) n k' c' g' a' w' d' := by
  have hcount := fun x => count_update threads t q x
  simp only [ht] at hcount
  constructor
  · have := hcount (.inside n)
    rw [h.inside] at this
    omega
  · have := hcount (.closing n)
    rw [h.closing] at this
    omega
  · have := hcount (.signalling n)
    rw [h.signalling] at this
    omega
  · have := hcount (.awaiting n)
    rw [h.awaiting] at this
    omega
  · have := hcount (.awake n)
    rw [h.awake] at this
    omega
  · have := hcount (.deleting n)
    rw [h.deleting] at this
    omega

namespace State

variable {s s' : State N}

/-- A step that leaves the lock of a port, its place in the tree and the threads
at it as they are leaves its phase. -/
theorem Phase.congr (h : s.Phase n) (hnodes : s'.nodes n = s.nodes n)
    (hlisted : s'.Listed n ↔ s.Listed n)
    (hcount : ∀ p : Place, p.node = some n → count s'.threads p = count s.threads p) :
    s'.Phase n := by
  cases h with
  | unused hv hl hheld => exact .unused (hnodes.trans hv) (mt hlisted.1 hl) (hheld.congr hcount)
  | listed k hv hl hheld =>
    exact .listed k (hnodes.trans hv) (hlisted.2 hl) (hheld.congr hcount)
  | closing k hv hl hheld =>
    exact .closing k (hnodes.trans hv) (mt hlisted.1 hl) (hheld.congr hcount)
  | awaiting k hv hl hheld =>
    exact .awaiting k (hnodes.trans hv) (mt hlisted.1 hl) (hheld.congr hcount)
  | awake hv hl hheld => exact .awake (hnodes.trans hv) (mt hlisted.1 hl) (hheld.congr hcount)
  | deleting hv hl hheld =>
    exact .deleting (hnodes.trans hv) (mt hlisted.1 hl) (hheld.congr hcount)

/-- A step is about one port. -/
theorem Inv.of_phase (h : s.Inv) (n : ℕ) (hnodes : ∀ m ≠ n, s'.nodes m = s.nodes m)
    (hlisted : ∀ m ≠ n, s'.Listed m ↔ s.Listed m)
    (hcount : ∀ m ≠ n, ∀ p : Place, p.node = some m → count s'.threads p = count s.threads p)
    (hinj : ∀ h h' n, s'.handles h = some n → s'.handles h' = some n → h = h')
    (hphase : s'.Phase n) : s'.Inv where
  inj := hinj
  phase m := by
    by_cases hm : m = n
    · exact hm ▸ hphase
    · exact (h.phase m).congr (hnodes m hm) (hlisted m hm) (hcount m hm)

/-- One thread goes, the lock of its port changes, and the tree stays. -/
theorem Inv.of_goTo (h : s.Inv) {v : BitVec 32} (hfrom : s.threads t = p)
    (hp : ∀ m, p.node = some m → m = n) (hq : ∀ m, q.node = some m → m = n)
    (hphase : ((s.setNode n v).goTo t q).Phase n) : ((s.setNode n v).goTo t q).Inv := by
  refine h.of_phase n ?_ ?_ ?_ h.inj hphase
  · exact fun m hm => Function.update_of_ne hm ..
  · exact fun m _ => Iff.rfl
  · intro m hm x hx
    refine count_update_of_ne ?_ ?_
    · change s.threads t ≠ x
      rw [hfrom]
      rintro rfl
      exact hm (hp m hx)
    · rintro rfl
      exact hm (hq m hx)

/-! ### What a thread knows of its port -/

/-- Memory that is not allocated is not in the tree, and no thread has it. -/
theorem Phase.of_none (h : s.Phase n) (hv : s.nodes n = none) :
    ¬s.Listed n ∧ Held s.threads n 0 0 0 0 0 0 := by
  cases h with
  | unused _ hl hheld => exact ⟨hl, hheld⟩
  | listed k hv' => simp [hv] at hv'
  | closing k hv' => simp [hv] at hv'
  | awaiting k hv' => simp [hv] at hv'
  | awake hv' => simp [hv] at hv'
  | deleting hv' => simp [hv] at hv'

/-- A port in the tree has a lock that counts the threads inside, and no other
thread has it. -/
theorem Phase.of_listed (h : s.Phase n) (hlisted : s.Listed n) :
    ∃ k, s.nodes n = some (BitVec.ofNat 32 k) ∧ Held s.threads n k 0 0 0 0 0 := by
  cases h with
  | listed k hv _ hheld => exact ⟨k, hv, hheld⟩
  | unused _ hl => exact absurd hlisted hl
  | closing _ _ hl => exact absurd hlisted hl
  | awaiting _ _ hl => exact absurd hlisted hl
  | awake _ hl => exact absurd hlisted hl
  | deleting _ hl => exact absurd hlisted hl

/-- A port of which a thread is between `ts_tree_del_and_ref` and the
destruction: that thread has one reference of the count. -/
theorem Phase.of_closing (h : s.Phase n) (ht : s.threads t = .closing n) :
    ∃ k, s.nodes n = some (BitVec.ofNat 32 (k + 1)) ∧ ¬s.Listed n ∧
      Held s.threads n k 1 0 0 0 0 := by
  cases h with
  | closing k hv hl hheld => exact ⟨k, hv, hl, hheld⟩
  | unused _ _ hheld => exact absurd ht (count_eq_zero hheld.closing t)
  | listed _ _ _ hheld => exact absurd ht (count_eq_zero hheld.closing t)
  | awaiting _ _ _ hheld => exact absurd ht (count_eq_zero hheld.closing t)
  | awake _ _ hheld => exact absurd ht (count_eq_zero hheld.closing t)
  | deleting _ _ hheld => exact absurd ht (count_eq_zero hheld.closing t)

/-- A port for which a thread waits: the bit is set, and as many threads are
inside as are counted, or the last of them is about to signal. -/
theorem Phase.of_awaiting (h : s.Phase n) (ht : s.threads t = .awaiting n) :
    ∃ k, s.nodes n = some (REFLOCK_DESTROY + BitVec.ofNat 32 k) ∧ ¬s.Listed n ∧
      Held s.threads n k 0 (if k = 0 then 1 else 0) 1 0 0 := by
  cases h with
  | awaiting k hv hl hheld => exact ⟨k, hv, hl, hheld⟩
  | unused _ _ hheld => exact absurd ht (count_eq_zero hheld.awaiting t)
  | listed _ _ _ hheld => exact absurd ht (count_eq_zero hheld.awaiting t)
  | closing _ _ _ hheld => exact absurd ht (count_eq_zero hheld.awaiting t)
  | awake _ _ hheld => exact absurd ht (count_eq_zero hheld.awaiting t)
  | deleting _ _ hheld => exact absurd ht (count_eq_zero hheld.awaiting t)

/-- A thread that is about to signal is the last one to go: nobody is inside any
more, and one thread waits for it. -/
theorem Phase.of_signalling (h : s.Phase n) (ht : s.threads t = .signalling n) :
    s.nodes n = some (REFLOCK_DESTROY + BitVec.ofNat 32 0) ∧ ¬s.Listed n ∧
      Held s.threads n 0 0 1 1 0 0 := by
  cases h with
  | awaiting k hv hl hheld =>
    by_cases hk : k = 0
    · subst hk
      exact ⟨hv, hl, hheld⟩
    · rw [if_neg hk] at hheld
      exact absurd ht (count_eq_zero hheld.signalling t)
  | unused _ _ hheld => exact absurd ht (count_eq_zero hheld.signalling t)
  | listed _ _ _ hheld => exact absurd ht (count_eq_zero hheld.signalling t)
  | closing _ _ _ hheld => exact absurd ht (count_eq_zero hheld.signalling t)
  | awake _ _ hheld => exact absurd ht (count_eq_zero hheld.signalling t)
  | deleting _ _ hheld => exact absurd ht (count_eq_zero hheld.signalling t)

/-- A port whose last user has signalled: the thread that waited is awake, and
alone. -/
theorem Phase.of_awake (h : s.Phase n) (ht : s.threads t = .awake n) :
    s.nodes n = some REFLOCK_DESTROY ∧ ¬s.Listed n ∧ Held s.threads n 0 0 0 0 1 0 := by
  cases h with
  | awake hv hl hheld => exact ⟨hv, hl, hheld⟩
  | unused _ _ hheld => exact absurd ht (count_eq_zero hheld.awake t)
  | listed _ _ _ hheld => exact absurd ht (count_eq_zero hheld.awake t)
  | closing _ _ _ hheld => exact absurd ht (count_eq_zero hheld.awake t)
  | awaiting _ _ _ hheld => exact absurd ht (count_eq_zero hheld.awake t)
  | deleting _ _ hheld => exact absurd ht (count_eq_zero hheld.awake t)

/-- A port that has been poisoned: only the thread that frees it has it. -/
theorem Phase.of_deleting (h : s.Phase n) (ht : s.threads t = .deleting n) :
    s.nodes n = some REFLOCK_POISON ∧ ¬s.Listed n ∧ Held s.threads n 0 0 0 0 0 1 := by
  cases h with
  | deleting hv hl hheld => exact ⟨hv, hl, hheld⟩
  | unused _ _ hheld => exact absurd ht (count_eq_zero hheld.deleting t)
  | listed _ _ _ hheld => exact absurd ht (count_eq_zero hheld.deleting t)
  | closing _ _ _ hheld => exact absurd ht (count_eq_zero hheld.deleting t)
  | awaiting _ _ _ hheld => exact absurd ht (count_eq_zero hheld.deleting t)
  | awake _ _ hheld => exact absurd ht (count_eq_zero hheld.deleting t)

/-! ### One step -/

/-- A new handle for a port that has none. -/
theorem Inv.inj_update (h : s.Inv) {handle node : ℕ} (hnode : ¬s.Listed node) {a b m : ℕ}
    (ha : Function.update s.handles handle (some node) a = some m)
    (hb : Function.update s.handles handle (some node) b = some m) : a = b := by
  rw [Function.update_apply] at ha hb
  split_ifs at ha hb with hah hbh hbh
  · rw [hah, hbh]
  · cases ha
    exact absurd ⟨b, hb⟩ hnode
  · cases hb
    exact absurd ⟨a, ha⟩ hnode
  · exact h.inj a b m ha hb

/-- A new port comes into the tree with a count of zero. -/
theorem Inv.create (h : s.Inv) {handle node : ℕ} (hhandle : s.handles handle = none)
    (hnode : s.nodes node = none) :
    ∃ s', s.step (.create t handle node) = some s' ∧ s'.Inv := by
  obtain ⟨hl, hheld⟩ := (h.phase node).of_none hnode
  refine ⟨_, rfl, h.of_phase node ?_ ?_ ?_ (fun _ _ _ => h.inj_update hl) ?_⟩
  · exact fun m hm => Function.update_of_ne hm ..
  · intro m hm
    refine exists_congr fun handle' => ?_
    by_cases heq : handle' = handle
    · subst heq
      simp [hhandle, hm.symm]
    · simp [Function.update_of_ne heq]
  · exact fun _ _ _ _ => rfl
  · exact .listed 0 (Function.update_self ..) ⟨handle, Function.update_self ..⟩ hheld

/-- A call that finds the port by its handle has a reference when it leaves the
lock of the tree; if there is no such handle, nothing happens. -/
theorem Inv.find (h : s.Inv) (hN : N < 2 ^ 28) {handle : ℕ} (ht : s.threads t = .out) :
    ∃ s', s.step (.find t handle) = some s' ∧ s'.Inv := by
  simp only [step]
  cases hn : s.handles handle with
  | none => exact ⟨s, rfl, h⟩
  | some n =>
    obtain ⟨k, hv, hheld⟩ := (h.phase n).of_listed ⟨handle, hn⟩
    have hk : k < N := by
      have := count_lt (f := s.threads) (i := t) (x := .inside n) (by simp [ht])
      rwa [hheld.inside, Fintype.card_fin] at this
    simp only [hv, reflock_ref_ofNat (show k + 1 < 2 ^ 28 by omega), Option.map_some]
    refine ⟨_, rfl, h.of_goTo ht (by simp [Place.node]) (by simp [Place.node]) ?_⟩
    refine .listed (k + 1) (Function.update_self ..) ⟨handle, hn⟩ ?_
    exact hheld.update ht (by simp) (by simp) (by simp) (by simp) (by simp) (by simp)

/-- A call that goes gives its reference back: it signals when it is the last
one and a thread waits, and just goes otherwise. -/
theorem Inv.unref (h : s.Inv) (hN : N < 2 ^ 28) (ht : s.threads t = .inside n) :
    ∃ s', s.step (.unref t) = some s' ∧ s'.Inv := by
  have hbound : ∀ {k : ℕ}, count s.threads (.inside n) = k → k < 2 ^ 28 := by
    intro k hk
    have := count_le s.threads (.inside n)
    rw [hk, Fintype.card_fin] at this
    omega
  have hpos : count s.threads (.inside n) ≠ 0 := fun h0 => count_eq_zero h0 t ht
  simp only [step, ht]
  cases h.phase n with
  | listed k hv hl hheld =>
    obtain ⟨k, rfl⟩ := Nat.exists_eq_succ_of_ne_zero (hheld.inside ▸ hpos)
    have hk := hbound hheld.inside
    simp only [hv, reflock_unref_ofNat (show k < 2 ^ 28 by omega), Option.map_some]
    refine ⟨_, rfl, h.of_goTo ht (by simp [Place.node]) (by simp [Place.node]) ?_⟩
    refine .listed k (Function.update_self ..) hl ?_
    exact hheld.update ht (by simp) (by simp) (by simp) (by simp) (by simp) (by simp)
  | closing k hv hl hheld =>
    obtain ⟨k, rfl⟩ := Nat.exists_eq_succ_of_ne_zero (hheld.inside ▸ hpos)
    simp only [hv, reflock_unref_ofNat (hbound hheld.inside), Option.map_some]
    refine ⟨_, rfl, h.of_goTo ht (by simp [Place.node]) (by simp [Place.node]) ?_⟩
    refine .closing k (Function.update_self ..) hl ?_
    exact hheld.update ht (by simp) (by simp) (by simp) (by simp) (by simp) (by simp)
  | awaiting k hv hl hheld =>
    obtain ⟨k, rfl⟩ := Nat.exists_eq_succ_of_ne_zero (hheld.inside ▸ hpos)
    have hk := hbound hheld.inside
    simp only [hv, reflock_unref_destroy (show k < 2 ^ 28 by omega), Option.map_some, beq_iff_eq]
    -- the last one signals
    by_cases hlast : k = 0
    · subst hlast
      refine ⟨_, rfl, h.of_goTo ht (by simp [Place.node]) (by simp [Place.node]) ?_⟩
      refine .awaiting 0 (Function.update_self ..) hl ?_
      exact hheld.update ht (by simp) (by simp) (by simp) (by simp) (by simp) (by simp)
    · rw [if_neg hlast]
      refine ⟨_, rfl, h.of_goTo ht (by simp [Place.node]) (by simp [Place.node]) ?_⟩
      refine .awaiting k (Function.update_self ..) hl ?_
      exact hheld.update ht (by simp) (by simp) (by simp [hlast]) (by simp) (by simp) (by simp)
  | unused _ _ hheld => exact absurd hheld.inside hpos
  | awake _ _ hheld => exact absurd hheld.inside hpos
  | deleting _ _ hheld => exact absurd hheld.inside hpos

/-- `epoll_close` takes the port out of the tree and has a reference, in one
step under the lock of the tree; of two threads that close one handle, one finds
it. -/
theorem Inv.close (h : s.Inv) (hN : N < 2 ^ 28) {handle : ℕ} (ht : s.threads t = .out) :
    ∃ s', s.step (.close t handle) = some s' ∧ s'.Inv := by
  simp only [step]
  cases hn : s.handles handle with
  | none => exact ⟨s, rfl, h⟩
  | some n =>
    obtain ⟨k, hv, hheld⟩ := (h.phase n).of_listed ⟨handle, hn⟩
    have hk : k < N := by
      have := count_lt (f := s.threads) (i := t) (x := .inside n) (by simp [ht])
      rwa [hheld.inside, Fintype.card_fin] at this
    simp only [hv, reflock_ref_ofNat (show k + 1 < 2 ^ 28 by omega), Option.map_some]
    refine ⟨_, rfl, h.of_phase n ?_ ?_ ?_ ?_ ?_⟩
    · exact fun m hm => Function.update_of_ne hm ..
    · intro m hm
      refine exists_congr fun handle' => ?_
      by_cases heq : handle' = handle
      · subst heq
        simp [hn, hm.symm]
      · simp only [Function.update_of_ne heq]
    · intro m hm x hx
      refine count_update_of_ne ?_ ?_
      · change s.threads t ≠ x
        rw [ht]
        rintro rfl
        simp [Place.node] at hx
      · rintro rfl
        exact hm (Option.some.inj hx).symm
    · intro a b m ha hb
      simp only [Function.update_apply] at ha hb
      split_ifs at ha hb
      exact h.inj a b m ha hb
    · refine .closing k (Function.update_self ..) ?_ ?_
      · rintro ⟨handle', h'⟩
        simp only [Function.update_apply] at h'
        split_ifs at h' with hne
        exact hne (h.inj handle' handle n h' hn)
      · exact hheld.update ht (by simp) (by simp) (by simp) (by simp) (by simp) (by simp)

/-- The thread that closes sets the bit: it waits if somebody is inside still,
and goes on otherwise. -/
theorem Inv.destroy (h : s.Inv) (hN : N < 2 ^ 28) (ht : s.threads t = .closing n) :
    ∃ s', s.step (.destroy t) = some s' ∧ s'.Inv := by
  obtain ⟨k, hv, hl, hheld⟩ := (h.phase n).of_closing ht
  have hk : k ≤ N := by
    have := count_le s.threads (.inside n)
    rwa [hheld.inside, Fintype.card_fin] at this
  simp only [step, ht, hv, reflock_unref_and_destroy_ofNat (show k < 2 ^ 28 by omega),
    Option.map_some, bne_iff_ne]
  by_cases hnobody : k = 0
  · subst hnobody
    refine ⟨_, rfl, h.of_goTo ht (by simp [Place.node]) (by simp [Place.node]) ?_⟩
    refine .awake (Function.update_self ..) hl ?_
    exact hheld.update ht (by simp) (by simp) (by simp) (by simp) (by simp) (by simp)
  · rw [if_pos hnobody]
    refine ⟨_, rfl, h.of_goTo ht (by simp [Place.node]) (by simp [Place.node]) ?_⟩
    refine .awaiting k (Function.update_self ..) hl ?_
    exact hheld.update ht (by simp) (by simp) (by simp [hnobody]) (by simp) (by simp) (by simp)

/-- The signal is given to the thread that waits: both are there, and both go
on. -/
theorem Inv.wake (h : s.Inv) {t' : Fin N} (ht : s.threads t = .signalling n)
    (ht' : s.threads t' = .awaiting n) : ∃ s', s.step (.wake t t') = some s' ∧ s'.Inv := by
  obtain ⟨hv, hl, hheld⟩ := (h.phase n).of_signalling ht
  have hne : t' ≠ t := by
    rintro rfl
    simp [ht] at ht'
  have hnow : Function.update s.threads t .out t' = .awaiting n := by
    rw [Function.update_of_ne hne, ht']
  simp only [step, ht']
  refine ⟨_, rfl, h.of_phase n (fun _ _ => rfl) (fun _ _ => Iff.rfl) ?_ h.inj ?_⟩
  · intro m hm x hx
    refine (count_update_of_ne ?_ ?_).trans (count_update_of_ne ?_ ?_)
    · change Function.update s.threads t .out t' ≠ x
      rw [hnow]
      rintro rfl
      exact hm (Option.some.inj hx).symm
    · rintro rfl
      exact hm (Option.some.inj hx).symm
    · rw [ht]
      rintro rfl
      exact hm (Option.some.inj hx).symm
    · rintro rfl
      simp [Place.node] at hx
  · refine .awake hv hl ?_
    have hout : Held (Function.update s.threads t .out) n 0 0 0 1 0 0 :=
      hheld.update ht (by simp) (by simp) (by simp) (by simp) (by simp) (by simp)
    exact hout.update hnow (by simp) (by simp) (by simp) (by simp) (by simp) (by simp)

/-- The thread that closes is alone with the port, so the lock is the bare bit
and may be poisoned. -/
theorem Inv.poison (h : s.Inv) (ht : s.threads t = .awake n) :
    ∃ s', s.step (.poison t) = some s' ∧ s'.Inv := by
  obtain ⟨hv, hl, hheld⟩ := (h.phase n).of_awake ht
  simp only [step, ht, hv, reflock_poison, if_true, Option.map_some]
  refine ⟨_, rfl, h.of_goTo ht (by simp [Place.node]) (by simp [Place.node]) ?_⟩
  refine .deleting (Function.update_self ..) hl ?_
  exact hheld.update ht (by simp) (by simp) (by simp) (by simp) (by simp) (by simp)

/-- The memory is given back by the one thread that has it, so nobody is left
with it. -/
theorem Inv.free (h : s.Inv) (ht : s.threads t = .deleting n) :
    ∃ s', s.step (.free t) = some s' ∧ s'.Inv := by
  obtain ⟨-, hl, hheld⟩ := (h.phase n).of_deleting ht
  simp only [step, ht]
  refine ⟨_, rfl, h.of_phase n (fun m hm => Function.update_of_ne hm ..)
    (fun _ _ => Iff.rfl) ?_ h.inj ?_⟩
  · intro m hm x hx
    refine count_update_of_ne ?_ ?_
    · rw [ht]
      rintro rfl
      exact hm (Option.some.inj hx).symm
    · rintro rfl
      simp [Place.node] at hx
  · refine .unused (Function.update_self ..) hl ?_
    exact hheld.update ht (by simp) (by simp) (by simp) (by simp) (by simp) (by simp)

/-- Nothing is allocated at the start, and nothing is in the tree. -/
theorem inv_init : (init : State N).Inv where
  inj _ _ _ h := by simp [init] at h
  phase n := by
    refine .unused rfl (fun ⟨_, h⟩ => by simp [init] at h) ?_
    constructor <;> exact count_const (by simp)

/-- Every event that is possible has a step, which is to say that no assertion
fails and no free memory is used, and the invariant holds after it. -/
theorem Inv.step (h : s.Inv) (hN : N < 2 ^ 28) {e : Event N} (he : s.possible e = true) :
    ∃ s', s.step e = some s' ∧ s'.Inv := by
  cases e with
  | create t handle node =>
    simp only [possible, Bool.and_eq_true, beq_iff_eq, Option.isNone_iff_eq_none] at he
    exact h.create he.1.2 he.2
  | find t handle => exact h.find hN (by simpa [possible] using he)
  | unref t =>
    simp only [possible] at he
    split at he
    · rename_i n ht
      exact h.unref hN ht
    · cases he
  | close t handle => exact h.close hN (by simpa [possible] using he)
  | destroy t =>
    simp only [possible] at he
    split at he
    · rename_i n ht
      exact h.destroy hN ht
    · cases he
  | wake t t' =>
    simp only [possible] at he
    split at he
    · rename_i n n' ht ht'
      rw [beq_iff_eq] at he
      subst he
      exact h.wake ht ht'
    · cases he
  | poison t =>
    simp only [possible] at he
    split at he
    · rename_i n ht
      exact h.poison ht
    · cases he
  | free t =>
    simp only [possible] at he
    split at he
    · rename_i n ht
      exact h.free ht
    · cases he

/-! ### What holds of a port -/

/-- Whoever is behind `ts_tree_del_and_ref`. -/
def Closer (s : State N) (t : Fin N) (n : ℕ) : Prop :=
  s.threads t = .closing n ∨ s.threads t = .awaiting n ∨ s.threads t = .awake n ∨
    s.threads t = .deleting n

/-- What a user of the handles may rely on in every state. -/
structure Safe (s : State N) : Prop where
  -- nobody has memory that is free, and who frees it is alone
  allocated : ∀ t n, (s.threads t).node = some n → s.nodes n ≠ none
  alone : ∀ t t' n, s.threads t = .deleting n → (s.threads t').node = some n → t' = t
  -- nobody waits for ever
  awaited : ∀ t n, s.threads t = .signalling n → ∃ t', s.threads t' = .awaiting n
  signalled : ∀ t n, s.threads t = .awaiting n →
    ∃ t', s.threads t' = .inside n ∨ s.threads t' = .signalling n
  -- no memory is lost
  listed : ∀ n, s.Listed n → s.nodes n ≠ none ∧ ∀ t, ¬s.Closer t n
  closed : ∀ n, s.nodes n ≠ none → ¬s.Listed n → ∃ t, s.Closer t n ∧ ∀ t', s.Closer t' n → t' = t

/-- Where a thread that has a port can be: inside a call, about to signal, or in
`epoll_close`. -/
theorem node_cases (h : (s.threads t).node = some n) :
    s.threads t = .inside n ∨ s.threads t = .signalling n ∨ s.Closer t n := by
  cases ht : s.threads t with
  | out => simp [ht, Place.node] at h
  | inside m => exact .inl (by simpa [ht, Place.node] using h)
  | signalling m => exact .inr (.inl (by simpa [ht, Place.node] using h))
  | closing m | awaiting m | awake m | deleting m =>
    obtain rfl : m = n := by simpa [ht, Place.node] using h
    simp [Closer, ht]

/-- A port that no thread closes has no thread at a place of `epoll_close`. -/
theorem not_closer {k g : ℕ} (h : Held s.threads n k 0 g 0 0 0) : ¬s.Closer t n := by
  rintro (ht | ht | ht | ht)
  · exact count_eq_zero h.closing t ht
  · exact count_eq_zero h.awaiting t ht
  · exact count_eq_zero h.awake t ht
  · exact count_eq_zero h.deleting t ht

/-- If one thread is at the only place where a closer of this port can be, it is
the only closer. -/
theorem closer_unique {q : Place} (hone : count s.threads q = 1)
    (hq : ∀ t, s.Closer t n ↔ s.threads t = q) :
    ∃ t, s.Closer t n ∧ ∀ t', s.Closer t' n → t' = t := by
  obtain ⟨t, ht⟩ := count_pos.1 (hone ▸ Nat.one_pos)
  exact ⟨t, (hq t).2 ht, fun t' ht' => eq_of_count_eq_one hone ((hq t').1 ht') ht⟩

/-- A port that is allocated and not in the tree has exactly one thread that
closes it, so it is not forgotten and not freed twice. -/
theorem Inv.closer (h : s.Inv) (hn : s.nodes n ≠ none) (hl : ¬s.Listed n) :
    ∃ t, s.Closer t n ∧ ∀ t', s.Closer t' n → t' = t := by
  cases h.phase n with
  | unused hv => exact absurd hv hn
  | listed _ _ hl' => exact absurd hl' hl
  | closing _ _ _ hheld =>
    refine closer_unique hheld.closing fun t => ⟨?_, .inl⟩
    rintro (ht | ht | ht | ht)
    · exact ht
    · exact absurd ht (count_eq_zero hheld.awaiting t)
    · exact absurd ht (count_eq_zero hheld.awake t)
    · exact absurd ht (count_eq_zero hheld.deleting t)
  | awaiting _ _ _ hheld =>
    refine closer_unique hheld.awaiting fun t => ⟨?_, fun ht => .inr (.inl ht)⟩
    rintro (ht | ht | ht | ht)
    · exact absurd ht (count_eq_zero hheld.closing t)
    · exact ht
    · exact absurd ht (count_eq_zero hheld.awake t)
    · exact absurd ht (count_eq_zero hheld.deleting t)
  | awake _ _ hheld =>
    refine closer_unique hheld.awake fun t => ⟨?_, fun ht => .inr (.inr (.inl ht))⟩
    rintro (ht | ht | ht | ht)
    · exact absurd ht (count_eq_zero hheld.closing t)
    · exact absurd ht (count_eq_zero hheld.awaiting t)
    · exact ht
    · exact absurd ht (count_eq_zero hheld.deleting t)
  | deleting _ _ hheld =>
    refine closer_unique hheld.deleting fun t => ⟨?_, fun ht => .inr (.inr (.inr ht))⟩
    rintro (ht | ht | ht | ht)
    · exact absurd ht (count_eq_zero hheld.closing t)
    · exact absurd ht (count_eq_zero hheld.awaiting t)
    · exact absurd ht (count_eq_zero hheld.awake t)
    · exact ht

/-- What the phases say about every port, in the terms of a user. -/
theorem Inv.safe (h : s.Inv) : s.Safe where
  allocated t n ht hv := by
    obtain ⟨-, hheld⟩ := (h.phase n).of_none hv
    rcases node_cases ht with ht | ht | ht
    · exact count_eq_zero hheld.inside t ht
    · exact count_eq_zero hheld.signalling t ht
    · exact not_closer hheld ht
  alone t t' n ht ht' := by
    obtain ⟨hv, hl, hheld⟩ := (h.phase n).of_deleting ht
    rcases node_cases ht' with ht' | ht' | ht'
    · exact absurd ht' (count_eq_zero hheld.inside t')
    · exact absurd ht' (count_eq_zero hheld.signalling t')
    · obtain ⟨t₀, -, hall⟩ := h.closer (by simp [hv]) hl
      rw [hall t' ht', hall t (.inr (.inr (.inr ht)))]
  awaited t n ht := by
    obtain ⟨-, -, hheld⟩ := (h.phase n).of_signalling ht
    exact count_pos.1 (hheld.awaiting ▸ Nat.one_pos)
  signalled t n ht := by
    obtain ⟨k, -, -, hheld⟩ := (h.phase n).of_awaiting ht
    by_cases hk : k = 0
    · obtain ⟨t', ht'⟩ := count_pos.1 (show 0 < count s.threads (.signalling n) by
        rw [hheld.signalling, if_pos hk]
        exact Nat.one_pos)
      exact ⟨t', .inr ht'⟩
    · obtain ⟨t', ht'⟩ := count_pos.1 (hheld.inside.symm ▸ Nat.pos_of_ne_zero hk)
      exact ⟨t', .inl ht'⟩
  listed n hl := by
    obtain ⟨k, hv, hheld⟩ := (h.phase n).of_listed hl
    exact ⟨by simp [hv], fun t => not_closer hheld⟩
  closed n hn hl := h.closer hn hl

end State

/-- Over any interleaving of `epoll_create`, `epoll_ctl`, `epoll_wait` and `epoll_close` of
up to `2 ^ 28 - 1` threads no assertion fails and no memory is used that is free; a port
is freed once, by a thread that is alone with it; and nobody waits for ever. -/
theorem port_lifetime (hN : N < 2 ^ 28) {es : List (Event N)}
    (hes : Steps State.step (fun s e => s.possible e = true) .init es) :
    ∃ s, run State.step .init es = some s ∧ s.Safe := by
  obtain ⟨s, hrun, h⟩ := exists_run_of_steps (fun s e h he => h.step hN he) State.inv_init hes
  exact ⟨s, hrun, h.safe⟩

/-- One thread closes the port while another waits on it. -/
def closedInUse : List (Event 2) :=
  [.create 0 7 3, .find 1 7, .close 0 7, .destroy 0, .unref 1, .wake 1 0, .poison 0, .free 0]

/-- Two threads: one is inside a call while the other closes the handle, waits,
is signalled and frees the port. -/
theorem port_lifetime_two : ∃ s, run State.step .init closedInUse = some s ∧ s.Safe :=
  port_lifetime (by decide) (by decide)

end Handle
end Wepoll
end Net
end Sevent
