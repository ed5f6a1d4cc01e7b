import Pgaio.Browser.Numbers
import Pgaio.Go.Maps
import Mathlib.Algebra.BigOperators.Ring.List
import Mathlib.Algebra.Order.BigOperators.Group.List
import Mathlib.Data.List.Induction
import Mathlib.Algebra.BigOperators.Ring.Finset
import Mathlib.Tactic.Linarith

/-!
# Dashboard — rates from cumulative counters

`updateDashboard` of `web/static/js/dashboard.js`.  A sample holds the cumulative counters of the databases,
and a rate is what a counter has grown by since the sample before.  The baselines differ: the total is
compared with the total of the previous sample, whatever databases that had, and a database with its
own counters in the last sample that had it, or with zero.  `rates_from_growth_iff` says for which
samples no rate credits more than the databases have really done.

The page computes in floating-point numbers.  Counters up to `2 ^ 52` are exact there, but a quotient may be
rounded up, so that a rate credits a little more than the growth it was computed from.
-/

namespace Pgaio
namespace Web

open Browser Go

structure DatabaseStats where
  name : String
  txCommit : Int := 0
  txRollback : Int := 0
  tempBytes : Int := 0
  tempFiles : Int := 0
  blksRead : Int := 0
  deriving DecidableEq, Repr

/-- What `updateDashboard` reads of its argument, and the two clocks; `sampleAt` is in milliseconds, and a
`Date` has no more of them than a number can count. -/
structure Sample where
  now : String := ""
  sampleAt : Int
  databases : List DatabaseStats
  activeQueries : Int := 0
  idleConnections : Int := 0
  waitingQueries : Int := 0
  deriving DecidableEq, Repr

structure DbCounters where
  tempBytes : ℚ
  tempFiles : ℚ
  blksRead : ℚ
  deriving DecidableEq, Repr

/-- A point of the charts. -/
structure ChartPoint where
  time : String
  commits : ℚ
  rollbacks : ℚ
  active : ℚ
  idle : ℚ
  waiting : ℚ
  deriving DecidableEq, Repr

/-- The fields of the page that `updateDashboard` keeps, as `render` sets them. -/
structure DashboardVars where
  data : List ChartPoint := []
  prevCommits : GoMap String ℚ := ∅
  prevRollbacks : GoMap String ℚ := ∅
  prevTempBytes : Option ℚ := none
  prevTempFiles : Option ℚ := none
  prevSampleAt : Option Int := none
  prevDbCounters : GoMap String DbCounters := ∅

structure DbRate where
  name : String
  tempBytesRate : ℚ
  tempFilesRate : ℚ
  blksReadRate : ℚ
  deriving DecidableEq, Repr

/-- What `renderDBASignals` shows. -/
structure Signals where
  tempBytesRate : ℚ := 0
  tempFilesRate : ℚ := 0
  totalTempBytes : ℚ
  totalTempFiles : ℚ
  dbRates : List DbRate := []

def maxPoints : Nat := 40

/-! ## One sample -/

/-- The variables of the loop that counts transactions. -/
structure TransactionVars where
  totalCd : ℚ := 0
  totalRd : ℚ := 0
  prevCommits : GoMap String ℚ
  prevRollbacks : GoMap String ℚ

def countTransactions (vars : TransactionVars) (db : DatabaseStats) : TransactionVars :=
  let txCommit := rounded db.txCommit
  let txRollback := rounded db.txRollback
  let counted :=
    match vars.prevCommits.lookup db.name with
    -- Without a baseline nothing is counted.
    | none => vars
    | some prev =>
        { vars with
          totalCd := rounded (vars.totalCd + max 0 (rounded (txCommit - prev)))
          totalRd := rounded (vars.totalRd +
            max 0 (rounded (txRollback - (vars.prevRollbacks.lookup db.name).getD 0))) }
  { counted with
    prevCommits := counted.prevCommits.insert db.name txCommit
    prevRollbacks := counted.prevRollbacks.insert db.name txRollback }

def DatabaseStats.counters (db : DatabaseStats) : DbCounters :=
  ⟨rounded db.tempBytes, rounded db.tempFiles, rounded db.blksRead⟩

/-- The loop that adds a counter up over the databases. -/
def totalOf (counter : DatabaseStats → Int) (dbs : List DatabaseStats) : ℚ :=
  dbs.foldl (fun total db => rounded (total + rounded (counter db))) 0

/-- `Math.max(0, now - prev) / seconds`. -/
def rateOf (now prev seconds : ℚ) : ℚ :=
  rounded (max 0 (rounded (now - prev)) / seconds)

/-- The rates of one database; a database without counters has counted from zero. -/
def dbRate (prevDbCounters : GoMap String DbCounters) (seconds : ℚ) (db : DatabaseStats) : DbRate :=
  let prev := (prevDbCounters.lookup db.name).getD ⟨0, 0, 0⟩
  { name := db.name
    tempBytesRate := rateOf (rounded db.tempBytes) prev.tempBytes seconds
    tempFilesRate := rateOf (rounded db.tempFiles) prev.tempFiles seconds
    blksReadRate := rateOf (rounded db.blksRead) prev.blksRead seconds }

/-- The seconds since the previous sample, when there is one and the clock has moved on. -/
def secondsSince (prevSampleAt : Option Int) (sampleAt : Int) : Option ℚ :=
  match prevSampleAt with
  | none => none
  | some prev =>
      -- The time zero counts as missing.
      if prev ≠ 0 ∧ prev < sampleAt then
        let seconds := rounded (rounded (sampleAt - prev : Int) / 1000)
        if 0 < seconds then some seconds else none
      else none

def signals (vars : DashboardVars) (sample : Sample) : Signals :=
  let totalTempBytes := totalOf DatabaseStats.tempBytes sample.databases
  let totalTempFiles := totalOf DatabaseStats.tempFiles sample.databases
  match secondsSince vars.prevSampleAt sample.sampleAt with
  | none => { totalTempBytes, totalTempFiles }
  | some seconds =>
      { tempBytesRate := rateOf totalTempBytes (vars.prevTempBytes.getD 0) seconds
        tempFilesRate := rateOf totalTempFiles (vars.prevTempFiles.getD 0) seconds
        totalTempBytes
        totalTempFiles
        dbRates := sample.databases.map (dbRate vars.prevDbCounters seconds) }

def updateDashboard (vars : DashboardVars) (sample : Sample) : DashboardVars × Signals :=
  let transactions := sample.databases.foldl countTransactions
    { prevCommits := vars.prevCommits, prevRollbacks := vars.prevRollbacks }
  let shown := signals vars sample
  let points := vars.data ++
    [ { time := sample.now
        commits := transactions.totalCd
        rollbacks := transactions.totalRd
        active := rounded sample.activeQueries
        idle := rounded sample.idleConnections
        waiting := rounded sample.waitingQueries } ]
  ({ data := if maxPoints < points.length then points.tail else points
     prevCommits := transactions.prevCommits
     prevRollbacks := transactions.prevRollbacks
     prevTempBytes := some shown.totalTempBytes
     prevTempFiles := some shown.totalTempFiles
     prevSampleAt := some sample.sampleAt
     prevDbCounters :=
       GoMap.assignAll (sample.databases.map fun db => (db.name, db.counters)) vars.prevDbCounters },
    shown)

/-- The fields after some samples. -/
def varsAfter (earlier : List Sample) : DashboardVars :=
  earlier.foldl (fun vars sample => (updateDashboard vars sample).1) {}

/-! ## What the databases have done -/

/-- The last earlier row of a database. -/
def lastSeen (earlier : List Sample) (name : String) : Option DatabaseStats :=
  (earlier.flatMap Sample.databases).reverse.find? fun db => db.name = name

/-- What a counter has grown by since the last sample that contained the database; nothing for a
database seen for the first time. -/
def growth (counter : DatabaseStats → Int) (earlier : List Sample) (db : DatabaseStats) : Int :=
  match lastSeen earlier db.name with
  | none => 0
  | some prev => counter db - counter prev

/-- The seconds since the previous sample. -/
def interval (earlier : List Sample) (sample : Sample) : ℚ :=
  match earlier.getLast? with
  | none => 0
  | some prev => (sample.sampleAt - prev.sampleAt) / 1000

/-- No rate of the sample credits more than the growth of the counters. -/
structure RatesFromGrowth (earlier : List Sample) (sample : Sample) : Prop where
  total : (updateDashboard (varsAfter earlier) sample).2.tempBytesRate * interval earlier sample ≤
    ((sample.databases.map (growth DatabaseStats.tempBytes earlier)).sum : Int)
  each : ∀ p ∈ sample.databases.zip (updateDashboard (varsAfter earlier) sample).2.dbRates,
    p.2.name = p.1.name ∧
      p.2.tempBytesRate * interval earlier sample ≤ growth DatabaseStats.tempBytes earlier p.1 ∧
      p.2.blksReadRate * interval earlier sample ≤ growth DatabaseStats.blksRead earlier p.1
  blocks : ((updateDashboard (varsAfter earlier) sample).2.dbRates.map DbRate.blksReadRate).sum *
      interval earlier sample ≤
    ((sample.databases.map (growth DatabaseStats.blksRead earlier)).sum : Int)

/-- The counters of a database never fall. -/
def CountersGrow (samples : List Sample) : Prop :=
  samples.Pairwise fun before after => ∀ db ∈ before.databases, ∀ db' ∈ after.databases,
    db.name = db'.name → db.tempBytes ≤ db'.tempBytes ∧ db.blksRead ≤ db'.blksRead

/-- There is a previous sample, and the clock has moved on since then. -/
def ClockAdvances (earlier : List Sample) (sample : Sample) : Prop :=
  ∃ prev ∈ earlier.getLast?, prev.sampleAt ≠ 0 ∧ prev.sampleAt < sample.sampleAt

/-- Counts that the page adds, subtracts and compares exactly. -/
structure InRange (sample : Sample) : Prop where
  sampleAt : 0 ≤ sample.sampleAt ∧ sample.sampleAt < 2 ^ 53
  tempBytes : ∀ db ∈ sample.databases, 0 ≤ db.tempBytes
  totalTempBytes : (sample.databases.map DatabaseStats.tempBytes).sum < 2 ^ 52
  blksRead : ∀ db ∈ sample.databases, 0 ≤ db.blksRead ∧ db.blksRead < 2 ^ 52

/-- The total that the growth of the sample starts from. -/
def startTotal (earlier : List Sample) (sample : Sample) : Int :=
  (sample.databases.map fun db => ((lastSeen earlier db.name).getD db).tempBytes).sum

/-- The total of the previous sample. -/
def previousTotal (earlier : List Sample) : Int :=
  match earlier.getLast? with
  | none => 0
  | some prev => (prev.databases.map DatabaseStats.tempBytes).sum

/-- New databases start with nothing, and the databases of the sample started from no more than the
total of the previous one. -/
structure NothingNew (earlier : List Sample) (sample : Sample) : Prop where
  first : ∀ db ∈ sample.databases, lastSeen earlier db.name = none →
    db.tempBytes ≤ 0 ∧ db.blksRead ≤ 0
  total : startTotal earlier sample ≤ previousTotal earlier

/-- A count divided by some seconds as the page does it; the quotient is not rounded up. -/
def DividesDown (n : Int) (seconds : ℚ) : Prop :=
  rounded (n / rounded seconds) ≤ n / seconds

instance (n : Int) (seconds : ℚ) : Decidable (DividesDown n seconds) :=
  inferInstanceAs (Decidable (_ ≤ _))

/-- Seven bytes in 2999 milliseconds are shown as a little more. -/
example : DividesDown 7 2 ∧ ¬ DividesDown 7 (2999 / 1000) := by decide +kernel

/-- No growth is divided by the interval to more than it is; the total counts when it is compared with the
one that its growth starts from. -/
structure NoRoundingUp (earlier : List Sample) (sample : Sample) : Prop where
  each : ∀ db ∈ sample.databases,
    DividesDown (growth DatabaseStats.tempBytes earlier db) (interval earlier sample) ∧
      DividesDown (growth DatabaseStats.blksRead earlier db) (interval earlier sample)
  total : startTotal earlier sample = previousTotal earlier →
    DividesDown (sample.databases.map (growth DatabaseStats.tempBytes earlier)).sum
      (interval earlier sample)

variable {samples earlier later : List Sample} {sample : Sample} {db : DatabaseStats}

/-! ## Quotients -/

/-- What a rate credits. -/
theorem credit_bounds {n : Int} {seconds : ℚ} (hn : 0 ≤ n) (hsmall : n < 2 ^ 52) (h : 0 < seconds) :
    rounded (n / rounded seconds) * seconds < n + 1 ∧
      (n : ℚ) - 1 < rounded (n / rounded seconds) * seconds := by
  have hlow := le_rounded h.le
  have hhigh := rounded_le h.le
  have hpos := rounded_pos h
  generalize rounded seconds = s at hlow hhigh hpos ⊢
  have hn' : (0 : ℚ) ≤ n := by
    exact_mod_cast hn
  have hsmall' : (n : ℚ) + 1 ≤ 2 ^ 52 := by
    exact_mod_cast hsmall
  have hquotient : 0 ≤ (n : ℚ) / s := div_nonneg hn' hpos.le
  have hmul : (n : ℚ) / s * s = n := div_mul_cancel₀ _ hpos.ne'
  have hqlow := le_rounded hquotient
  have hqhigh := rounded_le hquotient
  have hrate : 0 ≤ rounded ((n : ℚ) / s) := by
    have hpart : (n : ℚ) / s / 2 ^ 53 ≤ n / s := div_le_self hquotient (by norm_num)
    linarith
  generalize rounded ((n : ℚ) / s) = rate at hqlow hqhigh hrate ⊢
  constructor
  · -- Both roundings make the credit larger.
    have hcredit : rate * seconds * (1 - 1 / 2 ^ 53) ≤ n * (1 + 1 / 2 ^ 53) := by
      calc
        rate * seconds * (1 - 1 / 2 ^ 53) = rate * (seconds - seconds / 2 ^ 53) := by ring
        _ ≤ rate * s := mul_le_mul_of_nonneg_left hlow hrate
        _ ≤ (n / s + n / s / 2 ^ 53) * s := mul_le_mul_of_nonneg_right hqhigh hpos.le
        _ = n / s * s * (1 + 1 / 2 ^ 53) := by ring
        _ = n * (1 + 1 / 2 ^ 53) := by rw [hmul]
    linarith
  · have hcredit : n * (1 - 1 / 2 ^ 53) ≤ rate * seconds * (1 + 1 / 2 ^ 53) := by
      calc
        n * (1 - 1 / 2 ^ 53) = n / s * s * (1 - 1 / 2 ^ 53) := by rw [hmul]
        _ = (n / s - n / s / 2 ^ 53) * s := by ring
        _ ≤ rate * s := mul_le_mul_of_nonneg_right hqlow hpos.le
        _ ≤ rate * (seconds + seconds / 2 ^ 53) := mul_le_mul_of_nonneg_left hhigh hrate
        _ = rate * seconds * (1 + 1 / 2 ^ 53) := by ring
    linarith

/-- A credit is compared with a whole number; only where it is the number itself does rounding matter. -/
theorem credit_le_iff {n m : Int} {seconds : ℚ} (hn : 0 ≤ n) (hsmall : n < 2 ^ 52) (h : 0 < seconds) :
    rounded (n / rounded seconds) * seconds ≤ m ↔ n ≤ m ∧ (n = m → DividesDown n seconds) := by
  obtain ⟨hupper, hlower⟩ := credit_bounds hn hsmall h
  rcases lt_trichotomy n m with hlt | rfl | hgt
  · have hnext : ((n : ℚ) + 1) ≤ m := by
      exact_mod_cast hlt
    exact iff_of_true (hupper.le.trans hnext) ⟨hlt.le, fun heq => absurd heq hlt.ne⟩
  · rw [DividesDown, le_div_iff₀ h]
    simp
  · have hnext : (m : ℚ) ≤ n - 1 := by
      have hcast : (m : ℚ) + 1 ≤ n := by
        exact_mod_cast hgt
      linarith
    exact iff_of_false (not_le.2 (hnext.trans_lt hlower)) fun hle => absurd hle.1 (not_le.2 hgt)

theorem dividesDown_zero (seconds : ℚ) : DividesDown 0 seconds := by
  simp [DividesDown, rounded, roundHalfEven]

/-! ## The fields after some samples -/

theorem varsAfter_concat (earlier : List Sample) (sample : Sample) :
    varsAfter (earlier ++ [sample]) = (updateDashboard (varsAfter earlier) sample).1 := by
  rw [varsAfter, List.foldl_append]
  rfl

theorem prevSampleAt_varsAfter (earlier : List Sample) :
    (varsAfter earlier).prevSampleAt = earlier.getLast?.map Sample.sampleAt := by
  induction earlier using List.reverseRecOn with
  | nil => rfl
  | append_singleton earlier sample _ =>
      rw [varsAfter_concat, List.getLast?_concat]
      rfl

theorem rounded_of_small {n : Int} (hn : 0 ≤ n) (hsmall : n < 2 ^ 53) : rounded n = n :=
  rounded_intCast (by omega)

/-- Counters below the limit are added up exactly. -/
theorem totalOf_eq {counter : DatabaseStats → Int} {dbs : List DatabaseStats}
    (hnonneg : ∀ db ∈ dbs, 0 ≤ counter db) (hsmall : (dbs.map counter).sum < 2 ^ 52) :
    totalOf counter dbs = (dbs.map counter).sum := by
  induction dbs using List.reverseRecOn with
  | nil => rfl
  | append_singleton dbs db ih =>
      have hbefore : ∀ db ∈ dbs, 0 ≤ counter db := fun db hdb => hnonneg db (List.mem_append_left _ hdb)
      have hdb : 0 ≤ counter db := hnonneg db (by simp)
      have hsum : 0 ≤ (dbs.map counter).sum := by
        apply List.sum_nonneg
        intro n hn
        obtain ⟨db', hdb', rfl⟩ := List.mem_map.1 hn
        exact hbefore db' hdb'
      rw [List.map_append, List.sum_append, List.map_singleton, List.sum_singleton] at hsmall ⊢
      have hprev := ih hbefore (by omega)
      unfold totalOf at hprev ⊢
      rw [List.foldl_append, List.foldl_cons, List.foldl_nil, hprev, rounded_of_small hdb (by omega),
        ← Int.cast_add, rounded_of_small (by omega) (by omega)]

theorem totalTempBytes_updateDashboard (vars : DashboardVars) (sample : Sample) :
    (updateDashboard vars sample).2.totalTempBytes = totalOf DatabaseStats.tempBytes sample.databases := by
  simp only [updateDashboard, signals]
  split
  · rfl
  · rfl

theorem prevTempBytes_varsAfter (hrange : ∀ before ∈ earlier, InRange before) :
    (varsAfter earlier).prevTempBytes.getD 0 = previousTotal earlier := by
  induction earlier using List.reverseRecOn with
  | nil => rfl
  | append_singleton earlier sample _ =>
      have hsample := hrange sample (by simp)
      rw [varsAfter_concat, previousTotal, List.getLast?_concat]
      exact (totalTempBytes_updateDashboard _ _).trans (totalOf_eq hsample.tempBytes hsample.totalTempBytes)

theorem lastSeen_concat (earlier : List Sample) (sample : Sample) (name : String) :
    lastSeen (earlier ++ [sample]) name =
      (sample.databases.reverse.find? fun db => db.name = name).or (lastSeen earlier name) := by
  unfold lastSeen
  rw [List.flatMap_append, List.reverse_append, List.find?_append]
  simp

/-- A database keeps its counters while samples do not contain it. -/
theorem prevDbCounters_varsAfter (earlier : List Sample) (name : String) :
    (varsAfter earlier).prevDbCounters.lookup name =
      (lastSeen earlier name).map DatabaseStats.counters := by
  induction earlier using List.reverseRecOn with
  | nil => rfl
  | append_singleton earlier sample ih =>
      have hentries : ((sample.databases.map fun db => (db.name, db.counters)).reverse.find?
            fun entry => entry.1 = name).map Prod.snd =
          (sample.databases.reverse.find? fun db => db.name = name).map DatabaseStats.counters := by
        rw [← List.map_reverse, List.find?_map, Option.map_map]
        rfl
      rw [varsAfter_concat, lastSeen_concat, Option.map_or, ← ih, ← hentries]
      exact GoMap.lookup_assignAll _ _ _

/-! ## Credits and growth -/

theorem mem_of_lastSeen {name : String} {prev : DatabaseStats}
    (h : lastSeen earlier name = some prev) :
    ∃ before ∈ earlier, prev ∈ before.databases ∧ prev.name = name := by
  have hname := List.find?_some h
  have hmem := List.mem_of_find?_eq_some h
  rw [List.mem_reverse, List.mem_flatMap] at hmem
  obtain ⟨before, hbefore, hprev⟩ := hmem
  exact ⟨before, hbefore, hprev, of_decide_eq_true hname⟩

/-- The counters of a database are at least what they were when it was last seen. -/
theorem lastSeen_le (hgrow : CountersGrow (earlier ++ sample :: later)) (hdb : db ∈ sample.databases)
    {prev : DatabaseStats} (h : lastSeen earlier db.name = some prev) :
    prev.tempBytes ≤ db.tempBytes ∧ prev.blksRead ≤ db.blksRead := by
  obtain ⟨before, hbefore, hprev, hname⟩ := mem_of_lastSeen h
  have hpair := (List.pairwise_append.1 hgrow).2.2 before hbefore sample List.mem_cons_self
  exact hpair prev hprev db hdb hname

/-- A counter never falls while samples are missing. -/
def GrowsFrom (counter : DatabaseStats → Int) (earlier : List Sample) (db : DatabaseStats) : Prop :=
  ∀ prev, lastSeen earlier db.name = some prev → counter prev ≤ counter db

theorem growth_nonneg {counter : DatabaseStats → Int} (h : GrowsFrom counter earlier db) :
    0 ≤ growth counter earlier db := by
  unfold growth
  cases hseen : lastSeen earlier db.name with
  | none => exact le_rfl
  | some prev => exact sub_nonneg.2 (h prev hseen)

/-- A rate is computed from the whole numbers themselves. -/
theorem rateOf_eq {now prev : Int} (hnow : 0 ≤ now ∧ now < 2 ^ 52) (hprev : 0 ≤ prev ∧ prev < 2 ^ 52)
    (seconds : ℚ) : rateOf now prev seconds = rounded ((max 0 (now - prev) : Int) / seconds) := by
  rw [rateOf, ← Int.cast_sub, rounded_intCast (by omega), Int.cast_max, Int.cast_zero]

/-- A counter is taken to have grown by its growth, or by all of it when the database is new. -/
theorem delta_eq_growth_iff {counter : DatabaseStats → Int} {start : Int}
    (hstart : start = ((lastSeen earlier db.name).map counter).getD 0) (h : GrowsFrom counter earlier db) :
    growth counter earlier db ≤ max 0 (counter db - start) ∧
      (max 0 (counter db - start) = growth counter earlier db ↔
        (lastSeen earlier db.name = none → counter db ≤ 0)) := by
  unfold growth
  cases hseen : lastSeen earlier db.name with
  | none =>
      rw [hseen] at hstart
      have hzero : start = 0 := hstart
      simp [hzero]
  | some prev =>
      rw [hseen] at hstart
      have hprev : start = counter prev := hstart
      have hle := h prev hseen
      simp [hprev, hle]

/-- A database is credited no more than its growth if it does not start with what it has, and the quotient
is not rounded up. -/
theorem credit_le_growth_iff {counter : DatabaseStats → Int} {start : Int} {seconds : ℚ}
    (hstart : start = ((lastSeen earlier db.name).map counter).getD 0) (hpos : 0 ≤ start)
    (hsmall : counter db < 2 ^ 52) (hseconds : 0 < seconds) (h : GrowsFrom counter earlier db) :
    rounded ((max 0 (counter db - start) : Int) / rounded seconds) * seconds ≤ growth counter earlier db ↔
      (lastSeen earlier db.name = none → counter db ≤ 0) ∧
        DividesDown (growth counter earlier db) seconds := by
  obtain ⟨hle, heq⟩ := delta_eq_growth_iff hstart h
  rw [credit_le_iff (le_max_left _ _) (by omega) hseconds, ← heq]
  constructor
  · rintro ⟨hge, hdown⟩
    have hsame := le_antisymm hge hle
    exact ⟨hsame, hsame ▸ hdown hsame⟩
  · rintro ⟨hsame, hdown⟩
    exact ⟨hsame.le, fun _ => hsame.symm ▸ hdown⟩

/-- The totals differ by the growth and by what the baselines differ. -/
theorem sum_growth_add_startTotal (earlier : List Sample) (sample : Sample) :
    (sample.databases.map DatabaseStats.tempBytes).sum =
      (sample.databases.map (growth DatabaseStats.tempBytes earlier)).sum + startTotal earlier sample := by
  rw [startTotal, ← List.sum_map_add]
  congr 1
  apply List.map_congr_left
  intro db _
  unfold growth
  cases lastSeen earlier db.name with
  | none => simp
  | some prev => simp

theorem sum_growth_nonneg {counter : DatabaseStats → Int}
    (h : ∀ db ∈ sample.databases, GrowsFrom counter earlier db) :
    0 ≤ (sample.databases.map (growth counter earlier)).sum := by
  apply List.sum_nonneg
  intro n hn
  obtain ⟨db, hdb, rfl⟩ := List.mem_map.1 hn
  exact growth_nonneg (h db hdb)

/-! ## Samples in range -/

theorem InRange.total_nonneg (h : InRange sample) : 0 ≤ (sample.databases.map DatabaseStats.tempBytes).sum := by
  apply List.sum_nonneg
  intro n hn
  obtain ⟨db, hdb, rfl⟩ := List.mem_map.1 hn
  exact h.tempBytes db hdb

theorem InRange.tempBytes_lt (h : InRange sample) (hdb : db ∈ sample.databases) : db.tempBytes < 2 ^ 52 := by
  have hle : db.tempBytes ≤ (sample.databases.map DatabaseStats.tempBytes).sum := by
    apply List.single_le_sum
    · intro n hn
      obtain ⟨db', hdb', rfl⟩ := List.mem_map.1 hn
      exact h.tempBytes db' hdb'
    · exact List.mem_map_of_mem hdb
  exact hle.trans_lt h.totalTempBytes

theorem previousTotal_bounds (hrange : ∀ before ∈ earlier, InRange before) :
    0 ≤ previousTotal earlier ∧ previousTotal earlier < 2 ^ 52 := by
  unfold previousTotal
  cases hlast : earlier.getLast? with
  | none => exact ⟨le_rfl, by norm_num⟩
  | some prev =>
      have hprev := hrange prev (List.mem_of_getLast? hlast)
      exact ⟨hprev.total_nonneg, hprev.totalTempBytes⟩

/-- Where a counter starts from, for a database that was seen and for one that was not. -/
theorem start_bounds (hrange : ∀ before ∈ earlier, InRange before) (name : String) :
    (0 ≤ ((lastSeen earlier name).map DatabaseStats.tempBytes).getD 0 ∧
        ((lastSeen earlier name).map DatabaseStats.tempBytes).getD 0 < 2 ^ 52) ∧
      0 ≤ ((lastSeen earlier name).map DatabaseStats.blksRead).getD 0 ∧
        ((lastSeen earlier name).map DatabaseStats.blksRead).getD 0 < 2 ^ 52 := by
  cases hseen : lastSeen earlier name with
  | none => simp
  | some prev =>
      obtain ⟨before, hbefore, hprev, -⟩ := mem_of_lastSeen hseen
      have hsample := hrange before hbefore
      exact ⟨⟨hsample.tempBytes prev hprev, hsample.tempBytes_lt hprev⟩, hsample.blksRead prev hprev⟩

/-- The rates of a database, from whole numbers. -/
theorem dbRate_eq (hrange : ∀ before ∈ earlier, InRange before) (hsample : InRange sample)
    (hdb : db ∈ sample.databases) (seconds : ℚ) :
    (dbRate (varsAfter earlier).prevDbCounters seconds db).tempBytesRate =
        rounded ((max 0 (db.tempBytes -
          ((lastSeen earlier db.name).map DatabaseStats.tempBytes).getD 0) : Int) / seconds) ∧
      (dbRate (varsAfter earlier).prevDbCounters seconds db).blksReadRate =
        rounded ((max 0 (db.blksRead -
          ((lastSeen earlier db.name).map DatabaseStats.blksRead).getD 0) : Int) / seconds) := by
  obtain ⟨htempStart, hblksStart⟩ := start_bounds hrange db.name
  have htemp : 0 ≤ db.tempBytes ∧ db.tempBytes < 2 ^ 52 :=
    ⟨hsample.tempBytes db hdb, hsample.tempBytes_lt hdb⟩
  have hblks := hsample.blksRead db hdb
  rw [← rateOf_eq htemp htempStart, ← rateOf_eq hblks hblksStart]
  simp only [dbRate, prevDbCounters_varsAfter]
  rw [rounded_of_small htemp.1 (by omega), rounded_of_small hblks.1 (by omega)]
  cases hseen : lastSeen earlier db.name with
  | none => simp
  | some prev =>
      rw [hseen] at htempStart hblksStart
      simp only [Option.map_some, Option.getD_some] at htempStart hblksStart
      simp only [Option.map_some, Option.getD_some, DatabaseStats.counters,
        rounded_of_small htempStart.1 (show prev.tempBytes < 2 ^ 53 by omega),
        rounded_of_small hblksStart.1 (show prev.blksRead < 2 ^ 53 by omega), and_self]

/-! ## A sample of a run -/

theorem interval_pos (h : ClockAdvances earlier sample) : 0 < interval earlier sample := by
  obtain ⟨prev, hprev, -, hlt⟩ := h
  have hlast : earlier.getLast? = some prev := hprev
  have hcast : (prev.sampleAt : ℚ) < sample.sampleAt := by
    exact_mod_cast hlt
  rw [interval, hlast]
  exact div_pos (sub_pos.2 hcast) (by norm_num)

theorem secondsSince_of_advances (hrange : ∀ before ∈ earlier, InRange before) (hsample : InRange sample)
    (h : ClockAdvances earlier sample) :
    secondsSince (varsAfter earlier).prevSampleAt sample.sampleAt =
      some (rounded (interval earlier sample)) := by
  have hpos := rounded_pos (interval_pos h)
  obtain ⟨prev, hprev, hzero, hlt⟩ := h
  have hlast : earlier.getLast? = some prev := hprev
  have hprevRange := (hrange prev (List.mem_of_getLast? hlast)).sampleAt
  have hexact : rounded ((sample.sampleAt - prev.sampleAt : Int) : ℚ) =
      sample.sampleAt - prev.sampleAt := by
    have hsampleAt := hsample.sampleAt
    rw [rounded_of_small (by omega) (by omega), Int.cast_sub]
  rw [interval, hlast] at hpos ⊢
  rw [prevSampleAt_varsAfter, hlast]
  simp only [Option.map_some, secondsSince, hexact]
  rw [if_pos ⟨hzero, hlt⟩, if_pos hpos]

theorem secondsSince_of_not_advances (h : ¬ ClockAdvances earlier sample) :
    secondsSince (varsAfter earlier).prevSampleAt sample.sampleAt = none := by
  rw [prevSampleAt_varsAfter]
  cases hlast : earlier.getLast? with
  | none => rfl
  | some prev =>
      simp only [Option.map_some, secondsSince]
      rw [if_neg fun hadvance => h ⟨prev, hlast, hadvance⟩]

theorem signals_of_advances (hrange : ∀ before ∈ earlier, InRange before) (hsample : InRange sample)
    (h : ClockAdvances earlier sample) :
    (updateDashboard (varsAfter earlier) sample).2.tempBytesRate =
        rounded ((max 0 ((sample.databases.map DatabaseStats.tempBytes).sum - previousTotal earlier) : Int) /
          rounded (interval earlier sample)) ∧
      (updateDashboard (varsAfter earlier) sample).2.dbRates =
        sample.databases.map
          (dbRate (varsAfter earlier).prevDbCounters (rounded (interval earlier sample))) := by
  rw [← rateOf_eq ⟨hsample.total_nonneg, hsample.totalTempBytes⟩ (previousTotal_bounds hrange),
    ← prevTempBytes_varsAfter hrange, ← totalOf_eq hsample.tempBytes hsample.totalTempBytes]
  simp only [updateDashboard, signals, secondsSince_of_advances hrange hsample h, and_self]

theorem signals_of_not_advances (h : ¬ ClockAdvances earlier sample) :
    (updateDashboard (varsAfter earlier) sample).2.tempBytesRate = 0 ∧
      (updateDashboard (varsAfter earlier) sample).2.dbRates = [] := by
  simp only [updateDashboard, signals, secondsSince_of_not_advances h, and_self]

/-- The counters of the databases in a sample grow from where they were last seen. -/
theorem growsFrom_of_countersGrow (hgrow : CountersGrow (earlier ++ sample :: later))
    (hdb : db ∈ sample.databases) :
    GrowsFrom DatabaseStats.tempBytes earlier db ∧ GrowsFrom DatabaseStats.blksRead earlier db :=
  ⟨fun _ hseen => (lastSeen_le hgrow hdb hseen).1, fun _ hseen => (lastSeen_le hgrow hdb hseen).2⟩

/-- Where the clock stands still no rate is computed, so nothing is credited. -/
theorem ratesFromGrowth_of_not_advances (hgrow : CountersGrow (earlier ++ sample :: later))
    (h : ¬ ClockAdvances earlier sample) : RatesFromGrowth earlier sample := by
  obtain ⟨htotal, hrates⟩ := signals_of_not_advances h
  refine ⟨?_, ?_, ?_⟩
  · rw [htotal, zero_mul]
    exact_mod_cast sum_growth_nonneg fun db hdb => (growsFrom_of_countersGrow hgrow hdb).1
  · rw [hrates, List.zip_nil_right]
    intro p hp
    cases hp
  · rw [hrates, List.map_nil, List.sum_nil, zero_mul]
    exact_mod_cast sum_growth_nonneg fun db hdb => (growsFrom_of_countersGrow hgrow hdb).2

theorem total_le_iff (hgrow : CountersGrow (earlier ++ sample :: later))
    (hrange : ∀ before ∈ earlier, InRange before) (hsample : InRange sample)
    (h : ClockAdvances earlier sample) :
    (updateDashboard (varsAfter earlier) sample).2.tempBytesRate * interval earlier sample ≤
        ((sample.databases.map (growth DatabaseStats.tempBytes earlier)).sum : Int) ↔
      startTotal earlier sample ≤ previousTotal earlier ∧
        (startTotal earlier sample = previousTotal earlier →
          DividesDown (sample.databases.map (growth DatabaseStats.tempBytes earlier)).sum
            (interval earlier sample)) := by
  have hnonneg : 0 ≤ (sample.databases.map (growth DatabaseStats.tempBytes earlier)).sum :=
    sum_growth_nonneg fun db hdb => (growsFrom_of_countersGrow hgrow hdb).1
  have hsum := sum_growth_add_startTotal earlier sample
  have htotal := hsample.totalTempBytes
  have hprevious := previousTotal_bounds hrange
  rw [(signals_of_advances hrange hsample h).1,
    credit_le_iff (le_max_left _ _) (by omega) (interval_pos h)]
  generalize (sample.databases.map (growth DatabaseStats.tempBytes earlier)).sum = grown at hnonneg hsum ⊢
  rw [hsum]
  -- Both sums are of the same databases, so the growth drops out.
  constructor
  · rintro ⟨hle, hdown⟩
    refine ⟨by omega, fun heq => ?_⟩
    have hsame : max 0 (grown + startTotal earlier sample - previousTotal earlier) = grown := by omega
    exact hsame ▸ hdown hsame
  · rintro ⟨hle, hdown⟩
    refine ⟨by omega, fun hsame => ?_⟩
    rw [hsame]
    by_cases hzero : grown = 0
    · rw [hzero]
      exact dividesDown_zero _
    · exact hdown (by omega)

/-- The databases are credited no more than their growth when the new ones start with nothing and nothing is
rounded up. -/
theorem each_iff (hgrow : CountersGrow (earlier ++ sample :: later))
    (hrange : ∀ before ∈ earlier, InRange before) (hsample : InRange sample)
    (h : ClockAdvances earlier sample) :
    (∀ p ∈ sample.databases.zip (updateDashboard (varsAfter earlier) sample).2.dbRates,
      p.2.name = p.1.name ∧
        p.2.tempBytesRate * interval earlier sample ≤ growth DatabaseStats.tempBytes earlier p.1 ∧
        p.2.blksReadRate * interval earlier sample ≤ growth DatabaseStats.blksRead earlier p.1) ↔
      ∀ db ∈ sample.databases, (lastSeen earlier db.name = none → db.tempBytes ≤ 0 ∧ db.blksRead ≤ 0) ∧
        DividesDown (growth DatabaseStats.tempBytes earlier db) (interval earlier sample) ∧
        DividesDown (growth DatabaseStats.blksRead earlier db) (interval earlier sample) := by
  rw [(signals_of_advances hrange hsample h).2, ← List.map_prod_left_eq_zip, List.forall_mem_map]
  apply forall₂_congr
  intro db hdb
  obtain ⟨htemp, hblks⟩ := growsFrom_of_countersGrow hgrow hdb
  obtain ⟨htempStart, hblksStart⟩ := start_bounds hrange db.name
  obtain ⟨htempRate, hblksRate⟩ := dbRate_eq hrange hsample hdb (rounded (interval earlier sample))
  dsimp only
  rw [htempRate, hblksRate,
    credit_le_growth_iff rfl htempStart.1 (hsample.tempBytes_lt hdb) (interval_pos h) htemp,
    credit_le_growth_iff rfl hblksStart.1 (hsample.blksRead db hdb).2 (interval_pos h) hblks]
  have hname : (dbRate (varsAfter earlier).prevDbCounters (rounded (interval earlier sample)) db).name =
      db.name := rfl
  tauto

/-- The blocks of all databases follow from those of each. -/
theorem blocks_of_each (hrange : ∀ before ∈ earlier, InRange before) (hsample : InRange sample)
    (h : ClockAdvances earlier sample)
    (heach : ∀ p ∈ sample.databases.zip (updateDashboard (varsAfter earlier) sample).2.dbRates,
      p.2.blksReadRate * interval earlier sample ≤ growth DatabaseStats.blksRead earlier p.1) :
    ((updateDashboard (varsAfter earlier) sample).2.dbRates.map DbRate.blksReadRate).sum *
        interval earlier sample ≤
      ((sample.databases.map (growth DatabaseStats.blksRead earlier)).sum : Int) := by
  have hrates := (signals_of_advances hrange hsample h).2
  rw [hrates, ← List.map_prod_left_eq_zip, List.forall_mem_map] at heach
  rw [hrates, List.map_map, ← List.sum_map_mul_right, Int.cast_list_sum, List.map_map]
  exact List.sum_le_sum heach

/-- In a run whose counters never fall and stay in range, the rates of a sample come from growth exactly
when none is computed, or nothing new is counted and nothing is rounded up. -/
theorem rates_from_growth_iff (hgrow : CountersGrow samples) (hrange : ∀ sample ∈ samples, InRange sample)
    (earlier : List Sample) (sample : Sample) (later : List Sample)
    (hsamples : samples = earlier ++ sample :: later) :
    RatesFromGrowth earlier sample ↔
      (ClockAdvances earlier sample → NothingNew earlier sample ∧ NoRoundingUp earlier sample) := by
  subst hsamples
  have hsample : InRange sample := hrange sample (by simp)
  have hearlier : ∀ before ∈ earlier, InRange before := fun before hbefore =>
    hrange before (List.mem_append_left _ hbefore)
  by_cases hclock : ClockAdvances earlier sample
  · rw [forall_prop_of_true hclock]
    constructor
    · intro h
      have heach := (each_iff hgrow hearlier hsample hclock).1 h.each
      have htotal := (total_le_iff hgrow hearlier hsample hclock).1 h.total
      exact ⟨⟨fun db hdb => (heach db hdb).1, htotal.1⟩, ⟨fun db hdb => (heach db hdb).2, htotal.2⟩⟩
    · rintro ⟨hnew, hround⟩
      have heach := (each_iff hgrow hearlier hsample hclock).2 fun db hdb =>
        ⟨hnew.first db hdb, hround.each db hdb⟩
      exact ⟨(total_le_iff hgrow hearlier hsample hclock).2 ⟨hnew.total, hround.total⟩, heach,
        blocks_of_each hearlier hsample hclock fun p hp => (heach p hp).2.2⟩
  · exact ⟨fun _ hadvances => absurd hadvances hclock,
      fun _ => ratesFromGrowth_of_not_advances hgrow hclock⟩

/-- Rounding alone never credits a whole byte or block. -/
theorem rates_near_growth (hgrow : CountersGrow (earlier ++ sample :: later))
    (hrange : ∀ before ∈ earlier, InRange before) (hsample : InRange sample)
    (h : ClockAdvances earlier sample) (hnew : NothingNew earlier sample) :
    (updateDashboard (varsAfter earlier) sample).2.tempBytesRate * interval earlier sample <
        (sample.databases.map (growth DatabaseStats.tempBytes earlier)).sum + 1 ∧
      ∀ p ∈ sample.databases.zip (updateDashboard (varsAfter earlier) sample).2.dbRates,
        p.2.tempBytesRate * interval earlier sample < growth DatabaseStats.tempBytes earlier p.1 + 1 ∧
          p.2.blksReadRate * interval earlier sample < growth DatabaseStats.blksRead earlier p.1 + 1 := by
  obtain ⟨htotal, hrates⟩ := signals_of_advances hrange hsample h
  rw [htotal, hrates, ← List.map_prod_left_eq_zip, List.forall_mem_map]
  constructor
  · have hnonneg : 0 ≤ (sample.databases.map (growth DatabaseStats.tempBytes earlier)).sum :=
      sum_growth_nonneg fun db hdb => (growsFrom_of_countersGrow hgrow hdb).1
    have hsum := sum_growth_add_startTotal earlier sample
    have hle : max 0 ((sample.databases.map DatabaseStats.tempBytes).sum - previousTotal earlier) ≤
        (sample.databases.map (growth DatabaseStats.tempBytes earlier)).sum := by
      have hstart := hnew.total
      omega
    have hsmall := hsample.totalTempBytes
    have hprevious := previousTotal_bounds hrange
    refine (credit_bounds (le_max_left _ _) (by omega) (interval_pos h)).1.trans_le ?_
    exact_mod_cast add_le_add_left hle 1
  · intro db hdb
    obtain ⟨htemp, hblks⟩ := growsFrom_of_countersGrow hgrow hdb
    obtain ⟨htempStart, hblksStart⟩ := start_bounds hrange db.name
    obtain ⟨htempRate, hblksRate⟩ := dbRate_eq hrange hsample hdb (rounded (interval earlier sample))
    have hfirst := hnew.first db hdb
    have htempSame := (delta_eq_growth_iff rfl htemp).2.2 fun hseen => (hfirst hseen).1
    have hblksSame := (delta_eq_growth_iff rfl hblks).2.2 fun hseen => (hfirst hseen).2
    have htempSmall := hsample.tempBytes_lt hdb
    have hblksSmall := (hsample.blksRead db hdb).2
    dsimp only
    rw [htempRate, hblksRate, ← htempSame, ← hblksSame]
    exact ⟨(credit_bounds (le_max_left _ _) (by omega) (interval_pos h)).1,
      (credit_bounds (le_max_left _ _) (by omega) (interval_pos h)).1⟩

def firstSample : Sample where
  sampleAt := 1000
  databases := [{ name := "app", tempBytes := 500, blksRead := 20 }]

/-- The database has grown by a hundred bytes in two seconds. -/
def grownSample : Sample where
  sampleAt := 3000
  databases := [{ name := "app", tempBytes := 600, blksRead := 20 }]

theorem rates_from_growth_iff_grownSample : RatesFromGrowth [firstSample] grownSample := by
  have hgrow : CountersGrow [firstSample, grownSample] := by
    simp [CountersGrow, firstSample, grownSample]
  have hrange : ∀ sample ∈ [firstSample, grownSample], InRange sample := by
    intro sample hsample
    rcases List.mem_pair.1 hsample with rfl | rfl <;> exact ⟨by decide, by decide, by decide, by decide⟩
  refine (rates_from_growth_iff hgrow hrange [firstSample] grownSample [] rfl).2 fun _ => ⟨⟨?_, ?_⟩, ⟨?_, ?_⟩⟩
  · simp [grownSample, firstSample, lastSeen]
  · decide
  · decide +kernel
  · decide +kernel

/-- A second database appears, with the counters of its past. -/
def secondSample : Sample where
  sampleAt := 2000
  databases := [{ name := "app", tempBytes := 500, blksRead := 30 },
    { name := "restored", tempBytes := 4096 }]

/-- The past of a new database is shown as growth. -/
theorem rates_count_first_sight :
    ¬ ∀ samples : List Sample, CountersGrow samples →
      ∀ earlier sample later, samples = earlier ++ sample :: later → RatesFromGrowth earlier sample := by
  intro h
  have hgrow : CountersGrow [firstSample, secondSample] := by
    simp [CountersGrow, firstSample, secondSample]
  have hfirst : InRange firstSample := ⟨by decide, by decide, by decide, by decide⟩
  have hsecond : InRange secondSample := ⟨by decide, by decide, by decide, by decide⟩
  have hclock : ClockAdvances [firstSample] secondSample := ⟨firstSample, rfl, by decide, by decide⟩
  have hrates := h [firstSample, secondSample] hgrow [firstSample] secondSample [] rfl
  have heach := (each_iff hgrow (by simpa using hfirst) hsecond hclock).1 hrates.each
  have hnew := (heach { name := "restored", tempBytes := 4096 } (by decide)).1 (by decide)
  exact absurd hnew.1 (by decide)

end Web
end Pgaio
