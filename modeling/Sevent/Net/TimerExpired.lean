/-
# Where `getExpired` cuts the set

`sevent/net/TimerManager.cpp`, `getExpired`.

The set is ordered by expiry and, between timers of one expiry, by address.  The
cut is the lower bound of a timer `tp` that is allocated for the purpose and
expires at `now`.  So a timer that expires before `now` is returned, one that
expires after `now` stays, and one that expires exactly at `now` is returned
when it lies below `tp` in memory (`splitsAt_iff`).  The cut is the one at
`now`, whatever the allocator does, when no timer expires at that microsecond,
and only then (`expired_split_iff`).
-/

import Sevent.Net.TimerFiring

namespace Sevent
namespace Net
namespace TimerManager

/-! ### The set of given timers at given addresses -/

/-- The timers `ts`, each where `addr` puts it. -/
def place (addr : ℕ → ℕ) (ts : List Timer) : List Timer :=
  ts.map fun t => { t with addr := addr t.id }

/-- The set after the timers `ts` have been inserted, each where `addr` puts it. -/
def timerSet (addr : ℕ → ℕ) (ts : List Timer) : List Timer :=
  (place addr ts).foldl insertSet []

/-- Objects that exist at one time have addresses of their own. -/
structure Placed (addr : ℕ → ℕ) (tpAddr : ℕ) (ts : List Timer) : Prop where
  apart : ∀ s ∈ ts, ∀ t ∈ ts, addr s.id = addr t.id → s.id = t.id
  fresh : ∀ t ∈ ts, addr t.id ≠ tpAddr

/-- The cut at `now`: what is due comes out, in the order of expiry, and what
is later stays. -/
structure SplitsAt (now : ℤ) (timers : List Timer) (r : List Timer × List Timer) : Prop where
  perm : (r.1 ++ r.2).Perm timers
  ordered : r.1.Pairwise fun s t => s.expired ≤ t.expired
  due : ∀ t ∈ r.1, t.expired ≤ now
  later : ∀ t ∈ r.2, now < t.expired

/-- The cut is the one at `now` for all addresses. -/
def SplitsExactly (ts : List Timer) (now : ℤ) : Prop :=
  ∀ addr tpAddr, Placed addr tpAddr ts →
    SplitsAt now (timerSet addr ts) (getExpired (timerSet addr ts) now tpAddr)

/-- Two runs that differ in the addresses return the same timers. -/
def AddressFree (ts : List Timer) (now : ℤ) : Prop :=
  ∀ addr tpAddr addr' tpAddr', Placed addr tpAddr ts → Placed addr' tpAddr' ts →
    ((getExpired (timerSet addr ts) now tpAddr).1.map Timer.id).Perm
      ((getExpired (timerSet addr' ts) now tpAddr').1.map Timer.id)

/-! ### The set is sorted -/

theorem foldl_insertSet {timers : List Timer} :
    ∀ {acc : List Timer}, (acc.Pairwise fun s t => Timer.lt s t = true) →
      ((acc ++ timers).map Timer.addr).Nodup →
      (timers.foldl insertSet acc).Perm (acc ++ timers) ∧
        (timers.foldl insertSet acc).Pairwise fun s t => Timer.lt s t = true := by
  induction timers with
  | nil => exact fun hsorted _ => ⟨by simp, hsorted⟩
  | cons t timers ih =>
    intro acc hsorted hnodup
    have happart : ∀ s ∈ acc, s.addr ≠ t.addr := by
      rw [List.map_append, List.map_cons] at hnodup
      exact fun s hs => (List.nodup_append.1 hnodup).2.2 _ (List.mem_map_of_mem hs) _ (by simp)
    have hperm : (insertSet acc t ++ timers).Perm (acc ++ t :: timers) :=
      ((insertSet_perm happart).append_right timers).trans List.perm_middle.symm
    obtain ⟨hfold, hfoldSorted⟩ := ih (pairwise_insertSet hsorted happart)
      ((hperm.map Timer.addr).nodup_iff.2 hnodup)
    exact ⟨hfold.trans hperm, hfoldSorted⟩

section
variable {addr : ℕ → ℕ} {tpAddr : ℕ} {ts : List Timer}

theorem Placed.nodup (hp : Placed addr tpAddr ts) (hids : (ts.map Timer.id).Nodup) :
    ((place addr ts).map Timer.addr).Nodup := by
  rw [place, List.map_map]
  refine List.Nodup.map_on (fun s hs t ht heq => ?_) hids.of_map
  exact List.inj_on_of_nodup_map hids hs ht (hp.apart s hs t ht heq)

theorem timerSet_perm (hp : Placed addr tpAddr ts) (hids : (ts.map Timer.id).Nodup) :
    (timerSet addr ts).Perm (place addr ts) :=
  (foldl_insertSet .nil (hp.nodup hids)).1

theorem timerSet_sorted (hp : Placed addr tpAddr ts) (hids : (ts.map Timer.id).Nodup) :
    (timerSet addr ts).Pairwise fun s t => Timer.lt s t = true :=
  (foldl_insertSet .nil (hp.nodup hids)).2

theorem mem_timerSet (hp : Placed addr tpAddr ts) (hids : (ts.map Timer.id).Nodup) {t : Timer} :
    t ∈ timerSet addr ts ↔ ∃ s ∈ ts, { s with addr := addr s.id } = t := by
  rw [(timerSet_perm hp hids).mem_iff, place, List.mem_map]

end

/-! ### The cut -/

/-- Where a test holds of all that is before what it holds of, its longest
prefix is all that it holds of. -/
theorem takeWhile_eq_filter {α : Type} {p : α → Bool} {l : List α}
    (h : l.Pairwise fun a b => p b = true → p a = true) : l.takeWhile p = l.filter p := by
  induction l with
  | nil => rfl
  | cons a l ih =>
    obtain ⟨hhead, htail⟩ := List.pairwise_cons.1 h
    by_cases ha : p a = true
    · rw [List.takeWhile_cons_of_pos ha, List.filter_cons_of_pos ha, ih htail]
    · rw [List.takeWhile_cons_of_neg ha, List.filter_cons_of_neg ha, eq_comm,
        List.filter_eq_nil_iff]
      exact fun b hb hpb => ha (hhead b hb hpb)

/-- The test of the lower bound, `timer < tp`. -/
def below (now : ℤ) (tpAddr : ℕ) (t : Timer) : Bool :=
  t.expired < now ∨ t.expired = now ∧ t.addr < tpAddr

theorem lt_probe (now : ℤ) (tpAddr : ℕ) (t : Timer) :
    Timer.lt t { id := 0, addr := tpAddr, timerCallback := false, expired := now, interval := 0 } =
      below now tpAddr t := by
  rw [Bool.eq_iff_iff, lt_iff, below, decide_eq_true_iff]

/-- **What `getExpired` returns**: the timers below the probe. -/
theorem getExpired_fst {timers : List Timer}
    (hsorted : timers.Pairwise fun s t => Timer.lt s t = true) (now : ℤ) (tpAddr : ℕ) :
    (getExpired timers now tpAddr).1 = timers.filter (below now tpAddr) := by
  unfold getExpired
  dsimp only
  simp only [List.span_eq_takeWhile_dropWhile, lt_probe]
  refine takeWhile_eq_filter (hsorted.imp fun {s t} hst ht => ?_)
  rw [below, decide_eq_true_iff] at ht ⊢
  rw [lt_iff] at hst
  omega

/-- **What stays**: the timers that are not below it. -/
theorem mem_getExpired_snd {timers : List Timer}
    (hsorted : timers.Pairwise fun s t => Timer.lt s t = true) (now : ℤ) (tpAddr : ℕ) {t : Timer} :
    t ∈ (getExpired timers now tpAddr).2 ↔ t ∈ timers ∧ below now tpAddr t = false := by
  have happend := getExpired_append timers now tpAddr
  have hnodup : timers.Nodup := hsorted.imp fun hst heq => by
    rw [heq, lt_iff] at hst
    omega
  rw [← happend] at hnodup
  have hdisjoint := (List.nodup_append.1 hnodup).2.2
  rw [getExpired_fst hsorted] at happend hdisjoint
  refine ⟨fun ht => ?_, fun ⟨ht, hbelow⟩ => ?_⟩
  · have hmem : t ∈ timers := by
      rw [← happend]
      exact List.mem_append_right _ ht
    refine ⟨hmem, Bool.eq_false_iff.2 fun hbelow => ?_⟩
    exact hdisjoint t (List.mem_filter.2 ⟨hmem, hbelow⟩) t ht rfl
  · rw [← happend, List.mem_append, List.mem_filter, hbelow] at ht
    exact ht.resolve_left fun h => Bool.false_ne_true h.2

theorem getExpired_ordered {timers : List Timer}
    (hsorted : timers.Pairwise fun s t => Timer.lt s t = true) (now : ℤ) (tpAddr : ℕ) :
    (getExpired timers now tpAddr).1.Pairwise fun s t => s.expired ≤ t.expired := by
  rw [getExpired_fst hsorted]
  refine (hsorted.filter _).imp fun hst => ?_
  rw [lt_iff] at hst
  omega

section
variable {addr : ℕ → ℕ} {tpAddr : ℕ} {ts : List Timer}

/-- **The cut in one run**: it is the one at `now` when each timer that expires
at `now` lies below the probe in memory. -/
theorem splitsAt_iff (hp : Placed addr tpAddr ts) (hids : (ts.map Timer.id).Nodup) (now : ℤ) :
    SplitsAt now (timerSet addr ts) (getExpired (timerSet addr ts) now tpAddr) ↔
      ∀ t ∈ ts, t.expired = now → addr t.id < tpAddr := by
  have hsorted := timerSet_sorted hp hids
  refine ⟨fun hs t ht hnow => ?_, fun h => ?_⟩
  · by_contra hge
    have hstays : { t with addr := addr t.id } ∈ (getExpired (timerSet addr ts) now tpAddr).2 := by
      refine (mem_getExpired_snd hsorted ..).2 ⟨(mem_timerSet hp hids).2 ⟨t, ht, rfl⟩, ?_⟩
      rw [below, decide_eq_false_iff_not]
      dsimp only
      omega
    have := hs.later _ hstays
    dsimp only at this
    omega
  · refine ⟨by rw [getExpired_append], getExpired_ordered hsorted .., fun t ht => ?_,
      fun t ht => ?_⟩
    · exact expired_le_of_mem_getExpired ht
    · obtain ⟨hmem, hbelow⟩ := (mem_getExpired_snd hsorted ..).1 ht
      obtain ⟨s, hs, rfl⟩ := (mem_timerSet hp hids).1 hmem
      have hs := h s hs
      rw [below, decide_eq_false_iff_not] at hbelow
      dsimp only at hbelow ⊢
      omega

/-- The ids of the timers that are returned. -/
theorem getExpired_ids (hp : Placed addr tpAddr ts) (hids : (ts.map Timer.id).Nodup) (now : ℤ) :
    ((getExpired (timerSet addr ts) now tpAddr).1.map Timer.id).Perm
      ((ts.filter fun t => below now tpAddr { t with addr := addr t.id }).map Timer.id) := by
  rw [getExpired_fst (timerSet_sorted hp hids)]
  refine (((timerSet_perm hp hids).filter _).map _).trans (.of_eq ?_)
  rw [place, List.filter_map, List.map_map]
  rfl

end

/-- Addresses at which the probe lies above the timers up to `n` and below the rest. -/
theorem placed_odd (ts : List Timer) (n : ℕ) : Placed (fun id => 2 * id + 3) (2 * n) ts where
  apart _ _ _ _ heq := by omega
  fresh _ _ := by omega

/-- What is returned depends on the addresses as soon as a timer expires exactly
at `now`: on where the probe is, for timers that stay where they are. -/
theorem addressFree_iff {ts : List Timer} (hids : (ts.map Timer.id).Nodup) (now : ℤ) :
    AddressFree ts now ↔ ∀ t ∈ ts, t.expired ≠ now := by
  refine ⟨fun hfree t ht hnow => ?_, fun h addr tpAddr addr' tpAddr' hp hp' => ?_⟩
  · have h1 := placed_odd ts 1
    have h2 := placed_odd ts (t.id + 2)
    have hperm := (getExpired_ids h1 hids now).symm.trans
      ((hfree _ _ _ _ h1 h2).trans (getExpired_ids h2 hids now))
    have hmem : t.id ∈ (ts.filter fun s => below now (2 * 1) { s with addr := 2 * s.id + 3 }).map
        Timer.id := by
      refine hperm.mem_iff.2 (List.mem_map_of_mem (List.mem_filter.2 ⟨ht, ?_⟩))
      rw [below, decide_eq_true_iff]
      dsimp only
      omega
    obtain ⟨s, hs, hid⟩ := List.mem_map.1 hmem
    obtain ⟨hmems, hbelow⟩ := List.mem_filter.1 hs
    rw [List.inj_on_of_nodup_map hids hmems ht hid, below, decide_eq_true_iff] at hbelow
    dsimp only at hbelow
    omega
  · refine (getExpired_ids hp hids now).trans
      (.trans (.of_eq ?_) (getExpired_ids hp' hids now).symm)
    refine congrArg _ (List.filter_congr fun t ht => ?_)
    simp only [below, h t ht, false_and, or_false]

/-- **Where `getExpired` cuts.**  In one run the cut is the one at `now` if and
only if each timer that expires exactly at `now` has an address below that of
the probe.  It is so for all addresses if and only if no timer expires exactly
at `now`, and only then what is returned does not depend on them. -/
theorem expired_split_iff {ts : List Timer} (hids : (ts.map Timer.id).Nodup) (now : ℤ) :
    (∀ addr tpAddr, Placed addr tpAddr ts →
      (SplitsAt now (timerSet addr ts) (getExpired (timerSet addr ts) now tpAddr) ↔
        ∀ t ∈ ts, t.expired = now → addr t.id < tpAddr)) ∧
    (SplitsExactly ts now ↔ ∀ t ∈ ts, t.expired ≠ now) ∧
    (AddressFree ts now ↔ ∀ t ∈ ts, t.expired ≠ now) := by
  refine ⟨fun addr tpAddr hp => splitsAt_iff hp hids now, ⟨fun hexact t ht hnow => ?_, fun h => ?_⟩,
    addressFree_iff hids now⟩
  · have := (splitsAt_iff (placed_odd ts 1) hids now).1 (hexact _ _ (placed_odd ts 1)) t ht hnow
    omega
  · exact fun addr tpAddr hp => (splitsAt_iff hp hids now).2 fun t ht hnow => absurd hnow (h t ht)

/-- Two timers that expire at 5, cut at 5 and at 6. -/
theorem expired_split_two :
    let ts : List Timer := [⟨0, 0, true, 5, 0⟩, ⟨1, 0, true, 5, 7⟩]
    (ts.map Timer.id).Nodup ∧ ¬ AddressFree ts 5 ∧ AddressFree ts 6 :=
  ⟨by decide, fun h => (expired_split_iff (by decide) 5).2.2.1 h ⟨0, 0, true, 5, 0⟩ (by simp) rfl,
    (expired_split_iff (by decide) 6).2.2.2 (by decide)⟩

/-- **A timer that expires at `now`, at one address, with the probe below and
above it**: it stays in the one run and is returned in the other. -/
theorem expired_split_fails :
    let timer : Timer := ⟨0, 3, true, 5, 0⟩
    getExpired [timer] 5 2 = ([], [timer]) ∧ getExpired [timer] 5 4 = ([timer], []) ∧
      ¬ SplitsAt 5 [timer] (getExpired [timer] 5 2) :=
  ⟨by decide, by decide, fun h => absurd (h.later ⟨0, 3, true, 5, 0⟩ (by decide)) (by decide)⟩

end TimerManager
end Net
end Sevent
