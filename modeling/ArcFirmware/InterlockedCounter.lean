import ArcFirmware.SpinLock
import Mathlib.Data.List.Nodup

/-!
# Interlocked counters

Any number of CPUs count on one word, up and down, in any interleaving.  The
word is the balance of the calls up to there modulo its size and every call
returns the word that it leaves; where all calls count one way, no value is
returned twice.
-/

set_option autoImplicit false

namespace ArcFirmware.InterlockedCounter

open ArcFirmware.Port ArcFirmware.Threads ArcFirmware.CpuSync ArcFirmware.SpinLock
  ArcFirmware.Edk2

variable {cpu : Type} {value : Nat}

/-! ## Counting -/

inductive Way where
  | up
  | down
  deriving DecidableEq, Repr

def Way.sign : Way → Int
  | .up => 1
  | .down => -1

def Way.prog (config : SyncConfig) (value : Nat) : Way → Sync Nat
  | .up => interlockedIncrement config value
  | .down => interlockedDecrement config value

def Way.access (value : Nat) : Way → SyncAccess
  | .up => .increment value
  | .down => .decrement value

/-- What a CPU does before it counts, and which way it counts then. -/
structure Count (value : Nat) where
  before : Sync Unit
  avoids : Within (fun event => ¬ Touches event value) before
  way : Way

def countAll (config : SyncConfig) : List (Count value) → Sync (List Nat)
  | [] => return []
  | count :: rest => do
      count.before
      let answer ← count.way.prog config value
      let answers ← countAll config rest
      return answer :: answers

def counted (value : Nat) : SyncEvent → Option (Way × Nat)
  | .read (.increment addr) answer => if addr = value then some (.up, answer) else none
  | .read (.decrement addr) answer => if addr = value then some (.down, answer) else none
  | _ => none

def counts (value : Nat) (history : List SyncEvent) : List (Way × Nat) :=
  history.filterMap (counted value)

theorem counts_concat (history : List SyncEvent) (event : SyncEvent) :
    counts value (history ++ [event]) = counts value history ++ (counted value event).toList := by
  rw [counts, List.filterMap_append]
  cases found : counted value event <;> simp [counts, found]

theorem counted_access (way : Way) (answer : Nat) :
    counted value (.read (way.access value) answer) = some (way, answer) := by
  cases way <;> exact if_pos rfl

theorem access_of_counted {event : SyncEvent} {way : Way} {answer : Nat}
    (found : counted value event = some (way, answer)) :
    event = .read (way.access value) answer := by
  cases event with
  | read source shown =>
      cases source with
      | increment addr =>
          obtain ⟨rfl, same⟩ := Option.ite_none_right_eq_some.mp found
          cases same
          rfl
      | decrement addr =>
          obtain ⟨rfl, same⟩ := Option.ite_none_right_eq_some.mp found
          cases same
          rfl
      | word addr => cases found
      | compareExchange bits addr compareValue exchangeValue => cases found
      | performanceCounter => cases found
      | debugAssert => cases found
  | write target written => cases found

theorem counted_of_untouched {event : SyncEvent} (untouched : ¬ Touches event value) :
    counted value event = none := by
  cases event with
  | read source answer =>
      cases source with
      | increment addr => exact if_neg fun same => untouched (congrArg some same)
      | decrement addr => exact if_neg fun same => untouched (congrArg some same)
      | word addr => rfl
      | compareExchange bits addr compareValue exchangeValue => rfl
      | performanceCounter => rfl
      | debugAssert => rfl
  | write target written => rfl

/-! ## One CPU -/

def Counting (value : Nat) (event : SyncEvent) : Prop :=
  Touches event value → ∃ way answer, event = .read (Way.access value way) answer

section Cpu

variable (config : SyncConfig)

theorem way_prog (way : Way) (value : Nat) : ∃ line, way.prog config value =
    (do assertAt config line (value != null)
        input (way.access value)) := by
  cases way
  · exact ⟨247, rfl⟩
  · exact ⟨271, rfl⟩

theorem untouched_report (line : Nat) : ¬ Touches (.write .debugAssert line) value :=
  fun touched => nomatch touched

theorem within_countAll (parts : List (Count value)) :
    Within (Counting value) (countAll config parts) := by
  induction parts with
  | nil => trivial
  | cons count rest ih =>
      obtain ⟨line, call⟩ := way_prog config count.way value
      rw [countAll, call]
      refine (count.avoids.mono fun event aside touched => absurd touched aside).bind fun _ => ?_
      have made : Within (Counting value) (do
          assertAt config line (value != null)
          input (count.way.access value)) :=
        (within_assertAt config (fun touched => absurd touched (untouched_report line)) _).bind
          fun _ answer => ⟨fun _ => ⟨count.way, answer, rfl⟩, trivial⟩
      exact made.bind fun answer => ih.bind fun answers => trivial

theorem wp_aside {prog : Sync Unit} (avoids : Within (fun event => ¬ Touches event value) prog)
    (history : List SyncEvent) :
    wp prog (fun _ after => counts value after = counts value history)
      (fun now => counts value now = counts value history) history := by
  refine wp_within ?_ (fun _ same => same) avoids rfl
  intro now event same aside
  rw [counts_concat, counted_of_untouched aside, same]
  exact List.append_nil _

theorem wp_call (way : Way) (history : List SyncEvent) :
    wp (way.prog config value)
      (fun answer after => counts value after = counts value history ++ [(way, answer)])
      (fun now => counts value now = counts value history ∨
        ∃ answer, counts value now = counts value history ++ [(way, answer)]) history := by
  obtain ⟨line, call⟩ := way_prog config way value
  have reports : Within (fun event => ¬ Touches event value)
      (assertAt config line (value != null)) := within_assertAt config (untouched_report line) _
  rw [call]
  refine wp_seq (wp_mono (fun _ _ _ same => same) (fun _ same => .inl same)
    (wp_aside reports history)) fun _ checked same => ?_
  refine ⟨.inl same, fun answer => ?_⟩
  have made : counts value (checked ++ [.read (way.access value) answer]) =
      counts value history ++ [(way, answer)] := by
    rw [counts_concat, counted_access, same]
    rfl
  exact ⟨.inr ⟨answer, made⟩, made⟩

theorem wp_countAll (parts : List (Count value)) (history : List SyncEvent) :
    wp (countAll config parts)
      (fun results after => ∃ done, counts value after = counts value history ++ done ∧
        done.map Prod.fst = parts.map Count.way ∧ done.map Prod.snd = results)
      (fun now => ∃ done, counts value now = counts value history ++ done ∧
        done.map Prod.fst <+: parts.map Count.way) history := by
  induction parts generalizing history with
  | nil =>
      have none_ : counts value history = counts value history ++ [] := (List.append_nil _).symm
      exact ⟨⟨[], none_, List.nil_prefix⟩, [], none_, rfl, rfl⟩
  | cons count rest ih =>
      have early (now : List SyncEvent) (same : counts value now = counts value history) :
          ∃ done, counts value now = counts value history ++ done ∧
            done.map Prod.fst <+: (count :: rest).map Count.way :=
        ⟨[], by rw [same, List.append_nil], List.nil_prefix⟩
      -- the rest is counted after the call
      have further {now called : List SyncEvent} {answer : Nat} {done : List (Way × Nat)}
          (first : counts value called = counts value history ++ [(count.way, answer)])
          (whole : counts value now = counts value called ++ done) :
          counts value now = counts value history ++ (count.way, answer) :: done := by
        rw [whole, first, List.append_assoc]
        rfl
      rw [countAll]
      refine wp_seq (wp_mono (fun _ _ _ same => same) early (wp_aside count.avoids history))
        fun _ now same => ?_
      have call := @wp_call value config count.way now
      rw [same] at call
      refine wp_seq (wp_mono (fun _ _ _ made => made) ?_ call) fun answer called first => ?_
      · rintro later (kept | ⟨answer, made⟩)
        · exact early later kept
        · exact ⟨_, made, List.cons_prefix_cons.mpr ⟨rfl, List.nil_prefix⟩⟩
      refine wp_seq (wp_mono (fun _ _ _ post => post) ?_ (ih called)) ?_
      · rintro later ⟨done, whole, begins⟩
        exact ⟨_, further first whole, List.cons_prefix_cons.mpr ⟨rfl, begins⟩⟩
      · rintro answers after ⟨done, whole, ways, rfl⟩
        have order : ((count.way, answer) :: done).map Prod.fst = (count :: rest).map Count.way :=
          congrArg (List.cons count.way) ways
        have all := further first whole
        exact ⟨⟨_, all, order ▸ List.prefix_refl _⟩, _, all, order, rfl⟩

end Cpu

/-! ## Schedules -/

/-- The calls in their order: who made it, which way, and its answer. -/
def tickets (value : Nat) (schedule : Schedule cpu SyncAccess Nat) : List (cpu × Way × Nat) :=
  schedule.filterMap fun step => (counted value step.2).map (Prod.mk step.1)

def balance (value : Nat) (schedule : Schedule cpu SyncAccess Nat) : Int :=
  ((tickets value schedule).map fun one => one.2.1.sign).sum

section Schedules

variable {schedule : Schedule cpu SyncAccess Nat} {who : cpu} {event : SyncEvent} {start : Words}

theorem tickets_concat (schedule : Schedule cpu SyncAccess Nat) (who : cpu) (event : SyncEvent) :
    tickets value (schedule ++ [(who, event)]) =
      tickets value schedule ++ ((counted value event).map (Prod.mk who)).toList := by
  rw [tickets, List.filterMap_append]
  cases found : counted value event <;> simp [tickets, found]

theorem balance_concat (schedule : Schedule cpu SyncAccess Nat) (who : cpu) {way : Way}
    {answer : Nat} (found : counted value event = some (way, answer)) :
    balance value (schedule ++ [(who, event)]) = balance value schedule + way.sign := by
  rw [balance, tickets_concat, found]
  simp [balance]

theorem balance_aside (schedule : Schedule cpu SyncAccess Nat) (who : cpu)
    (untouched : ¬ Touches event value) :
    balance value (schedule ++ [(who, event)]) = balance value schedule := by
  rw [balance, tickets_concat, counted_of_untouched untouched]
  simp [balance]

theorem tickets_own [DecidableEq cpu] (schedule : Schedule cpu SyncAccess Nat) (who : cpu) :
    ((tickets value schedule).filter fun one => one.1 = who).map Prod.snd =
      counts value (own who schedule) := by
  induction schedule using List.reverseRecOn with
  | nil => rfl
  | append_singleton schedule step ih =>
      obtain ⟨other, event⟩ := step
      rw [tickets_concat, List.filter_append, List.map_append, ih]
      by_cases mine : other = who
      · subst mine
        rw [own_concat_self, counts_concat]
        cases found : counted value event <;> simp
      · rw [own_concat_of_ne _ _ mine]
        cases found : counted value event <;> simp [mine]

def Balanced (value : Nat) (start : Words) (schedule : Schedule cpu SyncAccess Nat) (words : Words) :
    Prop :=
  (words value : Int) = (start value + balance value schedule) % 2 ^ 32

theorem wordsAfter_access (words : Words) (way : Way) (answer : Nat) :
    (wordsAfter words (.read (way.access value) answer) value : Int) =
        (words value + way.sign) % 2 ^ 32 ∧
      (answered words (.read (way.access value) answer) →
        answer = wordsAfter words (.read (way.access value) answer) value) := by
  cases way with
  | up =>
      have left : wordsAfter words (.read (.increment value) answer) value = u32 (words value + 1) :=
        Function.update_self value _ words
      refine ⟨?_, fun served => served.trans left.symm⟩
      rw [Way.access, left, u32, Way.sign]
      omega
  | down =>
      have left : wordsAfter words (.read (.decrement value) answer) value =
          u32 (words value + 2 ^ 32 - 1) := Function.update_self value _ words
      refine ⟨?_, fun served => served.trans left.symm⟩
      rw [Way.access, left, u32, Way.sign]
      omega

theorem Balanced.next {words : Words} (balanced : Balanced value start schedule words)
    (permitted : Counting value event) :
    Balanced value start (schedule ++ [(who, event)]) (wordsAfter words event) := by
  rw [Balanced] at balanced ⊢
  by_cases touched : Touches event value
  · obtain ⟨way, answer, rfl⟩ := permitted touched
    rw [(wordsAfter_access words way answer).1, balance_concat schedule who (counted_access way answer),
      balanced]
    omega
  · rw [wordsAfter_of_untouched words touched, balance_aside schedule who touched, balanced]

theorem balanced_of_legal [DecidableEq cpu] (word : start value < 2 ^ 32)
    (legal : Legal syncMemory start (fun _ _ => Counting value) schedule) :
    Balanced value start schedule (syncMemory.run start schedule) := by
  refine invariant_of_legal (Balanced value start) ?_ ?_ legal
  · rw [Balanced, balance]
    exact (Int.emod_eq_of_lt (by omega) (by simp; omega)).symm
  · intro schedule who event legal balanced
    exact balanced.next legal.last

theorem answer_of_legal [DecidableEq cpu] (word : start value < 2 ^ 32) {way : Way} {answer : Nat}
    (legal : Legal syncMemory start (fun _ _ => Counting value) (schedule ++ [(who, event)]))
    (found : counted value event = some (way, answer)) :
    (answer : Int) = (start value + balance value (schedule ++ [(who, event)])) % 2 ^ 32 := by
  have served : answered (syncMemory.run start schedule) event := legal.served.last
  have balanced := balanced_of_legal word legal
  obtain rfl := access_of_counted found
  rw [← balanced, run_concat]
  exact congrArg Nat.cast ((wordsAfter_access _ way answer).2 served)

/-! ## Calls in one direction -/

theorem balance_oneWay {way : Way} (oneWay : ∀ one ∈ tickets value schedule, one.2.1 = way) :
    balance value schedule = way.sign * (tickets value schedule).length := by
  rw [balance, List.map_congr_left fun one inside => congrArg Way.sign (oneWay one inside),
    List.map_const', List.sum_replicate_int, Int.mul_comm]

/-- The answer of a call when all count one way. -/
def ticketAt (start : Nat) (way : Way) (call : Nat) : Int := (start + way.sign * (call + 1)) % 2 ^ 32

theorem answers_oneWay [DecidableEq cpu] (word : start value < 2 ^ 32) {way : Way}
    (legal : Legal syncMemory start (fun _ _ => Counting value) schedule)
    (oneWay : ∀ one ∈ tickets value schedule, one.2.1 = way) :
    (tickets value schedule).map (fun one => (one.2.2 : Int)) =
      (List.range (tickets value schedule).length).map (ticketAt (start value) way) := by
  induction schedule using List.reverseRecOn with
  | nil => rfl
  | append_singleton schedule step ih =>
      obtain ⟨who, event⟩ := step
      have whole := @tickets_concat _ value schedule who event
      have older := ih (legal.of_prefix (List.prefix_append _ _)) fun one inside =>
        oneWay one (whole ▸ List.mem_append_left _ inside)
      cases found : counted value event with
      | none =>
          rw [found, Option.map_none, Option.toList_none, List.append_nil] at whole
          rwa [whole]
      | some call =>
          obtain ⟨other, answer⟩ := call
          have answers := answer_of_legal word legal found
          rw [balance_oneWay oneWay] at answers
          rw [found, Option.map_some, Option.toList_some] at whole
          rw [whole, List.length_append, List.length_singleton] at answers
          rw [whole, List.map_append, older, List.length_append, List.length_singleton,
            List.range_succ, List.map_append, List.map_singleton, List.map_singleton, answers]
          rfl

theorem distinct_oneWay (start : Nat) (way : Way) {calls : Nat} (few : calls ≤ 2 ^ 32) :
    ((List.range calls).map (ticketAt start way)).Nodup := by
  refine List.Nodup.map_on ?_ List.nodup_range
  intro first inside second also same
  rw [List.mem_range] at inside also
  cases way with
  | up =>
      rw [ticketAt, ticketAt, Way.sign] at same
      omega
  | down =>
      rw [ticketAt, ticketAt, Way.sign] at same
      omega

end Schedules

/-! ## CPUs that count -/

structure Counters (cpu : Type) (value : Nat) where
  config : cpu → SyncConfig
  parts : cpu → List (Count value)

def Counters.prog (counters : Counters cpu value) (who : cpu) : Sync (List Nat) :=
  countAll (counters.config who) (counters.parts who)

section Results

variable [DecidableEq cpu] {start : Words} {schedule : Schedule cpu SyncAccess Nat}

theorem Counters.legal (counters : Counters cpu value)
    (interleaves : Interleaves syncMemory counters.prog start schedule) :
    Legal syncMemory start (fun _ _ => Counting value) schedule := by
  refine legal_of_wp (fun who => ?_) interleaves
  exact wp_mono (fun _ _ _ _ => trivial) (fun _ each => each)
    (wp_within (fun _ _ each permitted => each.concat permitted) (fun _ each => each)
      (within_countAll (counters.config who) (counters.parts who)) each_nil)

def ticketsOf (value : Nat) (who : cpu) (schedule : Schedule cpu SyncAccess Nat) : List (Way × Nat) :=
  ((tickets value schedule).filter fun one => one.1 = who).map Prod.snd

def pairCounters (ways : Bool → List Way) : Counters Bool 0x3000 where
  config _ := ⟨0, 0, 0, 0, true⟩
  parts who := (ways who).map fun way => ⟨pure (), trivial, way⟩

def upAndDown : Bool → List Way
  | false => [.up, .up]
  | true => [.down]

def fullWords : Words := fun _ => 0xffffffff

/-- The word comes round, goes back and comes round again. -/
def upAndDownSchedule : Schedule Bool SyncAccess Nat :=
  [(false, .read (.increment 0x3000) 0), (true, .read (.decrement 0x3000) 0xffffffff),
    (false, .read (.increment 0x3000) 0)]

theorem upAndDown_interleaves :
    Interleaves syncMemory (pairCounters upAndDown).prog fullWords upAndDownSchedule := by
  refine ⟨?_, fun who => ?_⟩
  · exact served_cons rfl (served_cons rfl (served_cons rfl (served_nil _)))
  · cases who with
    | false => exact ⟨some [0, 0], .input (.input (.ret _))⟩
    | true => exact ⟨some [0xffffffff], .input (.ret _)⟩

def onlyUp : Bool → List Way
  | false => [.up, .up]
  | true => [.up]

def onlyUpSchedule : Schedule Bool SyncAccess Nat :=
  [(false, .read (.increment 0x3000) 0), (true, .read (.increment 0x3000) 1),
    (false, .read (.increment 0x3000) 2)]

theorem onlyUp_interleaves :
    Interleaves syncMemory (pairCounters onlyUp).prog fullWords onlyUpSchedule := by
  refine ⟨?_, fun who => ?_⟩
  · exact served_cons rfl (served_cons rfl (served_cons rfl (served_nil _)))
  · cases who with
    | false => exact ⟨some [0, 2], .input (.input (.ret _))⟩
    | true => exact ⟨some [1], .input (.ret _)⟩

theorem onlyUp_ways (who : Bool) : ∀ part ∈ (pairCounters onlyUp).parts who, part.way = .up := by
  intro part inside
  obtain ⟨way, among, rfl⟩ := List.mem_map.mp inside
  cases who with
  | false => simpa [onlyUp] using among
  | true => simpa [onlyUp] using among

theorem ticketsOf_of_runs (counters : Counters cpu value) {who : cpu} {outcome : Option (List Nat)}
    (run : Runs (counters.prog who) (own who schedule) outcome) :
    (ticketsOf value who schedule).map Prod.fst <+: (counters.parts who).map Count.way ∧
      ∀ results, outcome = some results →
        (ticketsOf value who schedule).map Prod.fst = (counters.parts who).map Count.way ∧
          (ticketsOf value who schedule).map Prod.snd = results := by
  have calls := wp_countAll (counters.config who) (counters.parts who) []
  obtain ⟨⟨done, whole, begins⟩, returned⟩ := wp_sound calls run
  rw [ticketsOf, tickets_own]
  rw [List.nil_append] at whole returned
  refine ⟨?_, fun results same => ?_⟩
  · rw [whole]
    exact begins
  · obtain ⟨all, every, ways, answers⟩ := returned results same
    rw [every]
    exact ⟨ways, answers⟩

/-- The calls are those of one counter, in the order of their accesses. -/
structure CountsTogether (counters : Counters cpu value) (start : Words)
    (schedule : Schedule cpu SyncAccess Nat) : Prop where
  word : (syncMemory.run start schedule value : Int) =
    (start value + balance value schedule) % 2 ^ 32
  answers : ∀ older who event way answer, older ++ [(who, event)] <+: schedule →
    counted value event = some (way, answer) →
      (answer : Int) = (start value + balance value (older ++ [(who, event)])) % 2 ^ 32
  order : ∀ who, (ticketsOf value who schedule).map Prod.fst <+: (counters.parts who).map Count.way
  returned : ∀ who results, Runs (counters.prog who) (own who schedule) (some results) →
    (ticketsOf value who schedule).map Prod.fst = (counters.parts who).map Count.way ∧
      (ticketsOf value who schedule).map Prod.snd = results

theorem interlocked_counts (counters : Counters cpu value) (start : Words)
    (word : start value < 2 ^ 32) (schedule : Schedule cpu SyncAccess Nat)
    (interleaves : Interleaves syncMemory counters.prog start schedule) :
    CountsTogether counters start schedule := by
  have legal := counters.legal interleaves
  refine ⟨balanced_of_legal word legal, ?_, fun who => ?_, fun who results run => ?_⟩
  · intro older who event way answer begins found
    exact answer_of_legal word (legal.of_prefix begins) found
  · obtain ⟨outcome, run⟩ := interleaves.runs who
    exact (ticketsOf_of_runs counters run).1
  · exact (ticketsOf_of_runs counters run).2 results rfl

theorem interlocked_counts_pair :
    CountsTogether (pairCounters upAndDown) fullWords upAndDownSchedule :=
  interlocked_counts (pairCounters upAndDown) fullWords (by decide) upAndDownSchedule
    upAndDown_interleaves

structure HandsOut (counters : Counters cpu value) (start : Words) (way : Way)
    (schedule : Schedule cpu SyncAccess Nat) : Prop where
  order : (tickets value schedule).map (fun one => (one.2.2 : Int)) =
    (List.range (tickets value schedule).length).map (ticketAt (start value) way)
  once : ((tickets value schedule).map fun one => one.2.2).Nodup
  apart : ∀ who other results others, Runs (counters.prog who) (own who schedule) (some results) →
    Runs (counters.prog other) (own other schedule) (some others) →
      results.Nodup ∧ (who ≠ other → results.Disjoint others)

theorem mem_ticketsOf {one : cpu × Way × Nat} (inside : one ∈ tickets value schedule) :
    one.2 ∈ ticketsOf value one.1 schedule :=
  List.mem_map.mpr ⟨one, List.mem_filter.mpr ⟨inside, decide_eq_true rfl⟩, rfl⟩

theorem oneWay_of_interleaves {way : Way} (counters : Counters cpu value)
    (oneWay : ∀ who, ∀ part ∈ counters.parts who, part.way = way)
    (interleaves : Interleaves syncMemory counters.prog start schedule) :
    ∀ one ∈ tickets value schedule, one.2.1 = way := by
  intro one inside
  obtain ⟨outcome, run⟩ := interleaves.runs one.1
  have begins := (ticketsOf_of_runs counters run).1
  have called := begins.subset (List.mem_map_of_mem (mem_ticketsOf inside))
  obtain ⟨part, among, same⟩ := List.mem_map.mp called
  rw [← same]
  exact oneWay one.1 part among

theorem apart_of_once (once : ((tickets value schedule).map fun one => one.2.2).Nodup)
    (who other : cpu) : ((ticketsOf value who schedule).map Prod.snd).Nodup ∧ (who ≠ other →
      ((ticketsOf value who schedule).map Prod.snd).Disjoint
        ((ticketsOf value other schedule).map Prod.snd)) := by
  constructor
  · rw [ticketsOf, List.map_map]
    exact once.sublist (List.filter_sublist.map _)
  · intro different answer mine theirs
    obtain ⟨_, first, rfl⟩ := List.mem_map.mp mine
    obtain ⟨_, second, same⟩ := List.mem_map.mp theirs
    obtain ⟨left, inLeft, rfl⟩ := List.mem_map.mp first
    obtain ⟨right, inRight, rfl⟩ := List.mem_map.mp second
    obtain ⟨here, isWho⟩ := List.mem_filter.mp inLeft
    obtain ⟨there, isOther⟩ := List.mem_filter.mp inRight
    have one := List.inj_on_of_nodup_map once here there same.symm
    rw [one] at isWho
    exact different ((of_decide_eq_true isWho).symm.trans (of_decide_eq_true isOther))

theorem interlocked_tickets (counters : Counters cpu value) (way : Way)
    (oneWay : ∀ who, ∀ part ∈ counters.parts who, part.way = way) (start : Words)
    (word : start value < 2 ^ 32) (schedule : Schedule cpu SyncAccess Nat)
    (interleaves : Interleaves syncMemory counters.prog start schedule)
    (few : (tickets value schedule).length ≤ 2 ^ 32) :
    HandsOut counters start way schedule := by
  have order := answers_oneWay word (counters.legal interleaves)
    (oneWay_of_interleaves counters oneWay interleaves)
  have once : ((tickets value schedule).map fun one => one.2.2).Nodup := by
    have words := distinct_oneWay (start value) way few
    rw [← order] at words
    refine List.Nodup.of_map (fun answer : Nat => (answer : Int)) ?_
    rwa [List.map_map]
  refine ⟨order, once, fun who other results others mine theirs => ?_⟩
  have apart := apart_of_once once who other
  rwa [((ticketsOf_of_runs counters mine).2 results rfl).2,
    ((ticketsOf_of_runs counters theirs).2 others rfl).2] at apart

theorem interlocked_tickets_pair : HandsOut (pairCounters onlyUp) fullWords .up onlyUpSchedule :=
  interlocked_tickets (pairCounters onlyUp) .up onlyUp_ways fullWords (by decide) onlyUpSchedule
    onlyUp_interleaves (by decide)

end Results

end ArcFirmware.InterlockedCounter
