import Pgaio.Go.Time
import Pgaio.Service.LSN
import Pgaio.Transition.Run

/-!
# WALStats — the rate at which WAL is written

`getWALStats` of `service/monitor.go`.  A call asks the server for its position in the
WAL, and later, under the lock, compares it with the position that the last call has left behind.
Two calls may enter the lock in another order than they have asked, and then the one that is late moves
the baseline back: what has been counted before is counted once more (`late_call_counts_twice`).

`bytes_counted_once` is about the runs in which no call enters with a position behind the baseline.
-/

namespace Pgaio
namespace Service

open Go Transition

/-! ## The section under `walMu` -/

structure WALStats where
  currentLSN : String
  bytesPerSec : Float := 0
  segmentsPerHour : Float := 0

/-- The fields that `walMu` guards. -/
structure WALBaseline where
  prevWalLSN : Nat := 0
  prevWalAt : Time := 0
  deriving DecidableEq, Repr

/-- `d.Seconds()`. -/
def seconds (d : Duration) : Float :=
  Float.ofInt (d.tdiv nanosecondsPerSecond) + Float.ofInt (d.tmod nanosecondsPerSecond) / 1e9

namespace WALBaseline

/-- The bytes that a rate is reported for, and the time they took. -/
def counted (m : WALBaseline) (currentLSN : Nat) (now : Time) : Option (Nat × Duration) :=
  -- There is no baseline at the first call, and none to compare with when the position is behind it.
  if m.prevWalAt.isZero = false ∧ m.prevWalLSN ≤ currentLSN then
    if 0 < now.sub m.prevWalAt then some (currentLSN - m.prevWalLSN, now.sub m.prevWalAt) else none
  else none

/-- From the answer `lsn` of the server on; `now` is read under the lock. -/
def getWALStats (m : WALBaseline) (lsn : String) (now : Time) :
    Except LSNError WALStats × WALBaseline :=
  match parseLSN lsn with
  | .error err => (.error err, m)
  | .ok currentLSN =>
      let stats : WALStats :=
        match m.counted currentLSN now with
        | none => { currentLSN := lsn }
        | some (bytes, elapsed) =>
            let bytesPerSec := Float.ofNat bytes / seconds elapsed
            { currentLSN := lsn
              bytesPerSec := bytesPerSec
              segmentsPerHour := bytesPerSec * 3600 / (16 * 1024 * 1024) }
      -- The baseline moves to this call in any case, also backwards.
      (.ok stats, { prevWalLSN := currentLSN, prevWalAt := now })

/-- The baseline that a call leaves behind. -/
theorem getWALStats_snd {m : WALBaseline} {lsn : String} {now : Time} {currentLSN : Nat}
    (h : parseLSN lsn = .ok currentLSN) :
    (m.getWALStats lsn now).2 = { prevWalLSN := currentLSN, prevWalAt := now } := by
  simp only [getWALStats, h]

end WALBaseline

/-! ## Calls that overlap -/

structure WALCalls where
  /-- The position of the server. -/
  serverLSN : Nat
  monitor : WALBaseline := {}
  /-- What the server has answered to calls that have not entered the section yet. -/
  inFlight : List String := []
  /-- The positions that have been read, in order. -/
  readings : List Nat := []
  /-- The bytes that rates have been reported for. -/
  credited : List Nat := []
  deriving DecidableEq, Repr

inductive WALLabel where
  /-- The server writes WAL. -/
  | advance (bytes : Nat)
  /-- The server answers a call. -/
  | read
  /-- A call passes the section at the time `now`. -/
  | enter (i : Nat) (now : Time)
  deriving DecidableEq, Repr

namespace WALCalls

def step (s : WALCalls) : WALLabel → Option WALCalls
  | .advance bytes =>
      if s.serverLSN + bytes < 2 ^ 64 then some { s with serverLSN := s.serverLSN + bytes } else none
  | .read =>
      some { s with
        inFlight := s.inFlight ++ [formatLSN s.serverLSN]
        readings := s.readings ++ [s.serverLSN] }
  | .enter i now =>
      s.inFlight[i]?.map fun lsn =>
        { s with
          monitor := (s.monitor.getWALStats lsn now).2
          inFlight := s.inFlight.eraseIdx i
          credited := s.credited ++
            match parseLSN lsn with
            | .error _ => []
            | .ok currentLSN => ((s.monitor.counted currentLSN now).map Prod.fst).toList }

/-- No more bytes have been credited than lie between the first and the last reading. -/
def CountedOnce (s : WALCalls) : Prop :=
  s.credited.sum ≤ s.readings.getLast?.getD 0 - s.readings.head?.getD 0

instance (s : WALCalls) : Decidable s.CountedOnce :=
  inferInstanceAs (Decidable (_ ≤ _))

/-- A call enters the section with a position that is not behind the baseline. -/
def inOrder (s : WALCalls) : WALLabel → Bool
  | .enter i _ =>
      match s.inFlight[i]?.map parseLSN with
      | some (.ok currentLSN) => s.monitor.prevWalLSN ≤ currentLSN
      | _ => true
  | _ => true

/-- What was read lies between the first reading and the server's position, and the baseline is one of
the readings; from the first reading to the baseline every byte has been credited at most once. -/
structure Telescopes (s : WALCalls) : Prop where
  serverLSN_lt : s.serverLSN < 2 ^ 64
  readings_sorted : s.readings.Pairwise (· ≤ ·)
  readings_le : ∀ n ∈ s.readings, n ≤ s.serverLSN
  inFlight_read : ∀ lsn ∈ s.inFlight, ∃ n ∈ s.readings, lsn = formatLSN n
  baseline :
    (s.credited = [] ∧ s.monitor.prevWalAt.isZero = true) ∨
      (s.monitor.prevWalLSN ∈ s.readings ∧
        s.readings.head?.getD 0 + s.credited.sum ≤ s.monitor.prevWalLSN)

variable {s t : WALCalls}

/-- The first reading is the least. -/
theorem Telescopes.head_le (h : s.Telescopes) {n : Nat} (hn : n ∈ s.readings) :
    s.readings.head?.getD 0 ≤ n := by
  have hsorted := h.readings_sorted
  cases hr : s.readings with
  | nil =>
      exact Nat.zero_le n
  | cons first rest =>
      rw [hr] at hsorted hn
      rcases List.mem_cons.1 hn with rfl | hmem
      · exact Nat.le_refl _
      · exact (List.pairwise_cons.1 hsorted).1 n hmem

/-- The last reading is the greatest. -/
theorem Telescopes.le_getLast (h : s.Telescopes) {n : Nat} (hn : n ∈ s.readings) :
    n ≤ s.readings.getLast?.getD 0 := by
  have hsorted := h.readings_sorted
  rcases List.eq_nil_or_concat s.readings with hr | ⟨before, last, hr⟩
  · rw [hr] at hn
    exact absurd hn List.not_mem_nil
  · rw [hr, List.concat_eq_append] at hsorted hn ⊢
    rw [List.getLast?_concat]
    rcases List.mem_append.1 hn with hmem | hmem
    · exact (List.pairwise_append.1 hsorted).2.2 n hmem last List.mem_cons_self
    · exact Nat.le_of_eq (List.mem_singleton.1 hmem)

theorem Telescopes.countedOnce (h : s.Telescopes) : s.CountedOnce := by
  unfold CountedOnce
  rcases h.baseline with ⟨hcredited, -⟩ | ⟨hmem, hsum⟩
  · rw [hcredited]
    exact Nat.zero_le _
  · apply Nat.le_sub_of_add_le'
    exact Nat.le_trans hsum (h.le_getLast hmem)

/-- The bytes that a call is credited with take the baseline to its own position. -/
theorem sum_counted_le {m : WALBaseline} {currentLSN : Nat} {now : Time}
    (h : m.prevWalLSN ≤ currentLSN) :
    m.prevWalLSN + ((m.counted currentLSN now).map Prod.fst).toList.sum ≤ currentLSN := by
  unfold WALBaseline.counted
  split
  · split
    · simp only [Option.map_some, Option.toList_some, List.sum_singleton]
      omega
    · simpa using h
  · simpa using h

/-- What has been credited, with what a call at `n` is credited with, fits between the first reading and
`n`. -/
theorem Telescopes.credited_le (h : s.Telescopes) {n : Nat} {now : Time} (hn : n ∈ s.readings)
    (hle : s.monitor.prevWalLSN ≤ n) :
    s.readings.head?.getD 0 +
      (s.credited ++ ((s.monitor.counted n now).map Prod.fst).toList).sum ≤ n := by
  rw [List.sum_append]
  rcases h.baseline with ⟨hcredited, hzero⟩ | ⟨hmem, hsum⟩
  · -- The first call only sets the baseline.
    have hnone : s.monitor.counted n now = none := by
      simp [WALBaseline.counted, hzero]
    rw [hcredited, hnone]
    exact h.head_le hn
  · calc
      s.readings.head?.getD 0 +
            (s.credited.sum + ((s.monitor.counted n now).map Prod.fst).toList.sum)
          = s.readings.head?.getD 0 + s.credited.sum +
              ((s.monitor.counted n now).map Prod.fst).toList.sum := by
            rw [Nat.add_assoc]
      _ ≤ s.monitor.prevWalLSN + ((s.monitor.counted n now).map Prod.fst).toList.sum :=
            Nat.add_le_add_right hsum _
      _ ≤ n := sum_counted_le hle

theorem step_telescopes (l : WALLabel) (h : s.Telescopes) (hok : s.inOrder l = true)
    (hstep : s.step l = some t) : t.Telescopes := by
  cases l with
  | advance bytes =>
      simp only [step] at hstep
      split at hstep
      · rename_i hlt
        cases hstep
        -- The readings so far are behind the new position as well.
        exact { h with
          serverLSN_lt := hlt
          readings_le := fun n hn => Nat.le_add_right_of_le (h.readings_le n hn) }
      · cases hstep
  | read =>
      cases hstep
      -- A new reading comes last, so the first one stays the same.
      have hhead {n : Nat} (hn : n ∈ s.readings) :
          (s.readings ++ [s.serverLSN]).head?.getD 0 = s.readings.head?.getD 0 := by
        rw [List.head?_append_of_ne_nil _ (List.ne_nil_of_mem hn)]
      refine { h with readings_sorted := ?_, readings_le := ?_, inFlight_read := ?_, baseline := ?_ }
      · apply List.pairwise_append.2
        refine ⟨h.readings_sorted, List.pairwise_singleton _ _, fun n hn m hm => ?_⟩
        rw [List.mem_singleton.1 hm]
        exact h.readings_le n hn
      · intro n hn
        rcases List.mem_append.1 hn with hn | hn
        · exact h.readings_le n hn
        · exact Nat.le_of_eq (List.mem_singleton.1 hn)
      · intro lsn hlsn
        rcases List.mem_append.1 hlsn with hlsn | hlsn
        · obtain ⟨n, hn, rfl⟩ := h.inFlight_read lsn hlsn
          exact ⟨n, List.mem_append_left _ hn, rfl⟩
        · exact ⟨s.serverLSN, List.mem_append_right _ List.mem_cons_self, List.mem_singleton.1 hlsn⟩
      · rcases h.baseline with hnone | ⟨hmem, hsum⟩
        · exact Or.inl hnone
        · refine Or.inr ⟨List.mem_append_left _ hmem, ?_⟩
          rw [hhead hmem]
          exact hsum
  | enter i now =>
      obtain ⟨lsn, hi, rfl⟩ := Option.map_eq_some_iff.1 hstep
      obtain ⟨n, hn, rfl⟩ := h.inFlight_read lsn (List.mem_of_getElem? hi)
      have hparse : parseLSN (formatLSN n) = .ok n :=
        parseLSN_formatLSN (Nat.lt_of_le_of_lt (h.readings_le n hn) h.serverLSN_lt)
      -- This is where the condition is needed.
      have hle : s.monitor.prevWalLSN ≤ n := by
        simpa [inOrder, hi, hparse] using hok
      -- The position of the call becomes the baseline.
      rw [hparse, WALBaseline.getWALStats_snd hparse]
      exact
        { serverLSN_lt := h.serverLSN_lt
          readings_sorted := h.readings_sorted
          readings_le := h.readings_le
          inFlight_read := fun lsn hlsn => h.inFlight_read lsn (List.mem_of_mem_eraseIdx hlsn)
          baseline := Or.inr ⟨hn, h.credited_le hn hle⟩ }

end WALCalls

/-- The credited bytes lie between the first and the last reading, in every run in which no call enters
the section with a position behind the baseline. -/
theorem bytes_counted_once {lsn : Nat} (hlsn : lsn < 2 ^ 64) {t : WALCalls}
    (h : Within WALCalls.step (fun s l => s.inOrder l = true) { serverLSN := lsn } t) :
    t.CountedOnce := by
  have hstart : ({ serverLSN := lsn } : WALCalls).Telescopes :=
    { serverLSN_lt := hlsn
      readings_sorted := List.Pairwise.nil
      readings_le := fun n hn => absurd hn List.not_mem_nil
      inFlight_read := fun text htext => absurd htext List.not_mem_nil
      baseline := Or.inl ⟨rfl, rfl⟩ }
  exact (h.invariant (fun s l t hs hok hstep => WALCalls.step_telescopes l hs hok hstep)
    hstart).countedOnce

/-- A call before and a call after 100 bytes of WAL. -/
theorem bytes_counted_once_two :
    ∃ t : WALCalls, t.credited = [100] ∧ t.CountedOnce := by
  let labels : List WALLabel := [.read, .enter 0 1, .advance 100, .read, .enter 0 2]
  have hmeets : runMeets WALCalls.step WALCalls.inOrder { serverLSN := 100 } labels = true := by
    decide +kernel
  have hrun : (run WALCalls.step { serverLSN := 100 } labels).any
      (fun t => decide (t.credited = [100])) = true := by
    decide +kernel
  obtain ⟨t, hwithin, htest⟩ := exists_within_of_run hmeets hrun
  exact ⟨t, of_decide_eq_true htest, bytes_counted_once (by decide) hwithin⟩

/-- The server goes from 100 to 200.  A call that has read 100 enters the section after one that has
read 200, so the next call is credited with the same 100 bytes again. -/
theorem late_call_counts_twice :
    ¬∀ (lsn : Nat) (t : WALCalls), lsn < 2 ^ 64 →
      Reach WALCalls.step { serverLSN := lsn } t → t.CountedOnce := by
  intro h
  let labels : List WALLabel :=
    [.read, .enter 0 1, .read, .advance 100, .read, .read, .enter 1 2, .enter 0 3, .enter 0 4]
  have hrun : (run WALCalls.step { serverLSN := 100 } labels).any
      (fun t => !decide t.CountedOnce) = true := by
    decide +kernel
  obtain ⟨t, hreach, htest⟩ := exists_reach_of_run hrun
  have hnot : ¬t.CountedOnce := by
    simpa using htest
  exact hnot (h 100 t (by decide) hreach)

end Service
end Pgaio
