import OsirisArm.ArmPmu
import OsirisArm.Timer
import Mathlib.Data.List.DropRight

/-! # User access to the cycle counter

The executor sets up the control register before every page run, and the page writes it again when
it starts the timer. Both are done in user mode and fault unless the kernel module is loaded. Here
the module may be loaded and unloaded between any two of these steps, on a machine with any number
of CPUs.
-/

namespace OsirisArm

open Library.A64

def armv8PmcrP : BitVec 32 := 1 <<< 1
def armv8PmcrC : BitVec 32 := 1 <<< 2
def armv8PmcrD : BitVec 32 := 1 <<< 3

namespace PmuRegisters

/-- The registers may be accessed in user mode. -/
def userAccess (registers : PmuRegisters) : Bool := registers.pmuserenr.getLsbD 0

def counting (registers : PmuRegisters) : Bool := registers.pmcntenset.getLsbD 31

end PmuRegisters

/-- The set-up before a page run; `none` is the trap of an access that is not allowed. -/
def armV8TimingInit (registers : PmuRegisters) : Option PmuRegisters :=
  if registers.userAccess then
    let value := registers.pmcr.setWidth 32
    let value := value ||| armv8PmcrE
    let value := value ||| armv8PmcrC
    let value := value ||| armv8PmcrP
    let value := value &&& ~~~armv8PmcrD
    some { registers with pmcr := value.setWidth 64 }
  else none

/-- What the timer start of a page does to the control register. -/
def pageTimerStart (registers : PmuRegisters) : Option PmuRegisters :=
  if registers.userAccess then some { registers with pmcr := registers.pmcr ||| 7 } else none

/-- The machine executes the timer start of a page like this, where it does not trap. -/
theorem pageTimerStart_run (arch : Architecture) {registers : PmuRegisters}
    (haccess : registers.userAccess = true) {s t : State} (hpmcr : s.pmcr = registers.pmcr)
    (hrun : arch.run timerStartWords s = some t) :
    pageTimerStart registers = some { registers with pmcr := t.pmcr } := by
  rw [run_timerStart] at hrun
  obtain rfl := Option.some.inj hrun
  rw [pageTimerStart, if_pos haccess, ← hpmcr]
  rfl

inductive PmuEvent where
  | load
  | unload
  | timingInit (cpu : ℕ)
  | timerStart (cpu : ℕ)
  deriving DecidableEq

/-- An event; an access that traps leaves the registers alone. -/
def PmuEvent.act : PmuEvent → List PmuRegisters → List PmuRegisters
  | .load, cpus => init cpus
  | .unload, cpus => fini cpus
  | .timingInit cpu, cpus =>
    cpus.modify cpu fun registers => (armV8TimingInit registers).getD registers
  | .timerStart cpu, cpus =>
    cpus.modify cpu fun registers => (pageTimerStart registers).getD registers

def runPmuEvents (events : List PmuEvent) (cpus : List PmuRegisters) : List PmuRegisters :=
  events.foldl (fun cpus event => event.act cpus) cpus

/-- What an event does to the registers of one CPU. -/
def PmuEvent.actOn (i : ℕ) : PmuEvent → PmuRegisters → PmuRegisters
  | .load, registers => enableCpuCounters registers
  | .unload, registers => disableCpuCounters registers
  | .timingInit cpu, registers =>
    if cpu = i then (armV8TimingInit registers).getD registers else registers
  | .timerStart cpu, registers =>
    if cpu = i then (pageTimerStart registers).getD registers else registers

theorem getElem?_act (event : PmuEvent) (cpus : List PmuRegisters) (i : ℕ) :
    (event.act cpus)[i]? = cpus[i]?.map (event.actOn i) := by
  cases event with
  | load => exact List.getElem?_map
  | unload => exact List.getElem?_map
  | timingInit cpu =>
    rw [PmuEvent.act, List.getElem?_modify]
    cases cpus[i]? with
    | none => rfl
    | some registers => by_cases h : cpu = i <;> simp [PmuEvent.actOn, h]
  | timerStart cpu =>
    rw [PmuEvent.act, List.getElem?_modify]
    cases cpus[i]? with
    | none => rfl
    | some registers => by_cases h : cpu = i <;> simp [PmuEvent.actOn, h]

theorem getElem?_runPmuEvents (events : List PmuEvent) (cpus : List PmuRegisters) (i : ℕ) :
    (runPmuEvents events cpus)[i]? =
      cpus[i]?.map fun registers =>
        events.foldl (fun registers event => event.actOn i registers) registers := by
  induction events generalizing cpus with
  | nil => exact Option.map_id'.symm
  | cons event events ih =>
    rw [runPmuEvents, List.foldl_cons, ← runPmuEvents, ih, getElem?_act, Option.map_map]
    rfl

/-- All that counts is whether user mode has access, whether the counters are enabled and divided,
and whether the cycle counter is on. -/
@[ext] structure PmuFlags where
  userAccess : Bool
  enabled : Bool
  divided : Bool
  counting : Bool
  deriving DecidableEq

def PmuRegisters.flags (registers : PmuRegisters) : PmuFlags :=
  ⟨registers.userAccess, registers.enabled, registers.divided, registers.counting⟩

/-- Unloading divides the clock: the mask that should clear E sets the other bits. -/
def PmuEvent.onFlags (i : ℕ) : PmuEvent → PmuFlags → PmuFlags
  | .load, flags => ⟨true, true, flags.divided, true⟩
  | .unload, flags => ⟨false, flags.enabled, true, flags.counting⟩
  | .timingInit cpu, flags =>
    if cpu = i ∧ flags.userAccess then ⟨true, true, false, flags.counting⟩ else flags
  | .timerStart cpu, flags =>
    if cpu = i ∧ flags.userAccess then { flags with enabled := true } else flags

theorem flags_enableCpuCounters (registers : PmuRegisters) :
    (enableCpuCounters registers).flags = ⟨true, true, registers.divided, true⟩ := by
  have hcounting : (enableCpuCounters registers).counting = true := by
    change (registers.pmcntenset ||| ((1 <<< 31 : BitVec 32).setWidth 64)).getLsbD 31 = true
    rw [BitVec.getLsbD_or, (by decide : ((1 <<< 31 : BitVec 32).setWidth 64).getLsbD 31 = true),
      Bool.or_true]
  have haccess : (enableCpuCounters registers).userAccess = true := by
    change (0xf : BitVec 64).getLsbD 0 = true
    decide
  exact PmuFlags.ext haccess (enabled_enableCpuCounters registers)
    (divided_enableCpuCounters registers) hcounting

theorem flags_disableCpuCounters (registers : PmuRegisters) :
    (disableCpuCounters registers).flags =
      ⟨false, registers.enabled, true, registers.counting⟩ := by
  have haccess : (disableCpuCounters registers).userAccess = false := by
    change (0 : BitVec 64).getLsbD 0 = false
    decide
  have hdivided : (disableCpuCounters registers).divided = true := by
    rw [PmuRegisters.divided, getLsbD_disableCpuCounters]
    exact Bool.or_true _
  exact PmuFlags.ext haccess (enabled_disableCpuCounters registers) hdivided rfl

theorem flags_armV8TimingInit (registers : PmuRegisters) :
    ((armV8TimingInit registers).getD registers).flags =
      if registers.userAccess then ⟨true, true, false, registers.counting⟩
      else registers.flags := by
  by_cases haccess : registers.userAccess = true
  · rw [armV8TimingInit, if_pos haccess, if_pos haccess]
    refine PmuFlags.ext haccess ?_ ?_ rfl
    · simp [PmuRegisters.flags, PmuRegisters.enabled, armv8PmcrE, armv8PmcrD]
    · simp [PmuRegisters.flags, PmuRegisters.divided, armv8PmcrD]
  · rw [armV8TimingInit, if_neg haccess, if_neg haccess, Option.getD_none]

theorem flags_pageTimerStart (registers : PmuRegisters) :
    ((pageTimerStart registers).getD registers).flags =
      if registers.userAccess then { registers.flags with enabled := true }
      else registers.flags := by
  by_cases haccess : registers.userAccess = true
  · rw [pageTimerStart, if_pos haccess, if_pos haccess]
    refine PmuFlags.ext rfl ?_ ?_ rfl
    · simp [PmuRegisters.flags, PmuRegisters.enabled]
    · simp [PmuRegisters.flags, PmuRegisters.divided]
  · rw [pageTimerStart, if_neg haccess, if_neg haccess, Option.getD_none]

theorem flags_actOn (i : ℕ) (event : PmuEvent) (registers : PmuRegisters) :
    (event.actOn i registers).flags = event.onFlags i registers.flags := by
  cases event with
  | load => exact flags_enableCpuCounters registers
  | unload => exact flags_disableCpuCounters registers
  | timingInit cpu =>
    by_cases h : cpu = i
    · simp only [PmuEvent.actOn, PmuEvent.onFlags, h, if_true, true_and]
      exact flags_armV8TimingInit registers
    · simp only [PmuEvent.actOn, PmuEvent.onFlags, h, if_false, false_and]
  | timerStart cpu =>
    by_cases h : cpu = i
    · simp only [PmuEvent.actOn, PmuEvent.onFlags, h, if_true, true_and]
      exact flags_pageTimerStart registers
    · simp only [PmuEvent.actOn, PmuEvent.onFlags, h, if_false, false_and]

def afterEvents (i : ℕ) (events : List PmuEvent) (registers : PmuRegisters) : PmuRegisters :=
  events.foldl (fun registers event => event.actOn i registers) registers

def flagsAfter (i : ℕ) (events : List PmuEvent) (flags : PmuFlags) : PmuFlags :=
  events.foldl (fun flags event => event.onFlags i flags) flags

theorem flags_afterEvents (i : ℕ) (events : List PmuEvent) (registers : PmuRegisters) :
    (afterEvents i events registers).flags = flagsAfter i events registers.flags := by
  induction events generalizing registers with
  | nil => rfl
  | cons event events ih =>
    have hstep := flags_actOn i event registers
    rw [afterEvents, List.foldl_cons, ← afterEvents, ih, hstep]
    rfl

theorem flagsAfter_append (i : ℕ) (events events' : List PmuEvent) (flags : PmuFlags) :
    flagsAfter i (events ++ events') flags = flagsAfter i events' (flagsAfter i events flags) :=
  List.foldl_append

/-- The access that the last event on the module leaves. -/
def PmuEvent.access : PmuEvent → Option Bool
  | .load => some true
  | .unload => some false
  | .timingInit _ | .timerStart _ => none

section
variable (i : ℕ)

theorem userAccess_onFlags (event : PmuEvent) (flags : PmuFlags) :
    (event.onFlags i flags).userAccess = event.access.getD flags.userAccess := by
  cases event with
  | load | unload => rfl
  | timingInit cpu =>
    simp only [PmuEvent.onFlags, PmuEvent.access, Option.getD_none]
    split
    · next h => exact h.2.symm
    · rfl
  | timerStart cpu =>
    simp only [PmuEvent.onFlags, PmuEvent.access, Option.getD_none]
    split <;> rfl

theorem userAccess_flagsAfter (events : List PmuEvent) (flags : PmuFlags) :
    (flagsAfter i events flags).userAccess =
      (events.filterMap PmuEvent.access).getLast?.getD flags.userAccess := by
  induction events using List.reverseRecOn with
  | nil => rfl
  | append_singleton events event ih =>
    have hlast := userAccess_onFlags i event (flagsAfter i events flags)
    rw [flagsAfter_append, List.filterMap_append]
    refine hlast.trans ?_
    rw [ih]
    cases hevent : event.access <;> simp [hevent]

/-- Whoever has access got it from the module, which has switched the cycle counter on. -/
theorem counting_flagsAfter (events : List PmuEvent) (flags : PmuFlags)
    (h : flags.userAccess = true → flags.counting = true) :
    (flagsAfter i events flags).userAccess = true →
      (flagsAfter i events flags).counting = true := by
  induction events generalizing flags with
  | nil => exact h
  | cons event events ih =>
    refine ih _ ?_
    cases event with
    | load => exact fun _ => rfl
    | unload => exact fun haccess => by cases haccess
    | timingInit cpu =>
      simp only [PmuEvent.onFlags]
      split
      · next hboth => exact fun _ => h hboth.2
      · exact h
    | timerStart cpu =>
      simp only [PmuEvent.onFlags]
      split <;> exact h

theorem flagsAfter_on (events : List PmuEvent) (flags : PmuFlags)
    (h : flags.enabled = true ∧ flags.counting = true) :
    (flagsAfter i events flags).enabled = true ∧ (flagsAfter i events flags).counting = true := by
  induction events generalizing flags with
  | nil => exact h
  | cons event events ih =>
    refine ih _ ?_
    cases event with
    | load => exact ⟨rfl, rfl⟩
    | unload => exact h
    | timingInit cpu | timerStart cpu =>
      simp only [PmuEvent.onFlags]
      split
      · exact ⟨rfl, h.2⟩
      · exact h

theorem flagsAfter_access {events : List PmuEvent} (h : PmuEvent.unload ∉ events)
    (flags : PmuFlags) (haccess : flags.userAccess = true) :
    (flagsAfter i events flags).userAccess = true ∧
      ((flagsAfter i events flags).divided = false ↔
        flags.divided = false ∨ PmuEvent.timingInit i ∈ events) := by
  induction events generalizing flags with
  | nil => exact ⟨haccess, by simp [flagsAfter]⟩
  | cons event events ih =>
    rw [List.mem_cons, not_or] at h
    have hstep : (event.onFlags i flags).userAccess = true := by
      rw [userAccess_onFlags]
      cases event with
      | load => rfl
      | unload => exact absurd rfl h.1
      | timingInit cpu | timerStart cpu => exact haccess
    obtain ⟨hkept, hdivided⟩ := ih h.2 (event.onFlags i flags) hstep
    refine ⟨hkept, hdivided.trans ?_⟩
    cases event with
    | load => simp [PmuEvent.onFlags]
    | unload => exact absurd rfl h.1
    | timingInit cpu =>
      by_cases hcpu : cpu = i
      · simp [PmuEvent.onFlags, hcpu, haccess]
      · simp [PmuEvent.onFlags, hcpu, Ne.symm hcpu]
    | timerStart cpu =>
      simp only [PmuEvent.onFlags]
      split <;> simp

theorem flagsAfter_noAccess {events : List PmuEvent} (h : PmuEvent.unload ∉ events)
    (flags : PmuFlags) (haccess : flags.userAccess = false) (hdivided : flags.divided = true) :
    (flagsAfter i events flags).userAccess = true ∧ (flagsAfter i events flags).divided = false ↔
      [.load, .timingInit i].Sublist events := by
  induction events generalizing flags with
  | nil =>
    change flags.userAccess = true ∧ flags.divided = false ↔ _
    simp [haccess]
  | cons event events ih =>
    rw [List.mem_cons, not_or] at h
    cases event with
    | load =>
      have hrest := flagsAfter_access i h.2 ⟨true, true, flags.divided, true⟩ rfl
      rw [List.cons_sublist_cons, List.singleton_sublist]
      refine (and_iff_right hrest.1).trans (hrest.2.trans ?_)
      simp [hdivided]
    | unload => exact absurd rfl h.1
    -- Without access the page runs do nothing.
    | timingInit cpu | timerStart cpu =>
      rw [List.sublist_cons_iff]
      simpa [flagsAfter, PmuEvent.onFlags, haccess] using ih h.2 flags haccess hdivided

/-- Where the module was unloaded, it was loaded again after the last time, and a page run was set
up on the CPU after that. -/
def Restored (events : List PmuEvent) : Prop :=
  PmuEvent.unload ∈ events →
    [.load, .timingInit i].Sublist (events.rtakeWhile (· != PmuEvent.unload))

theorem exists_lastUnload {events : List PmuEvent} (h : PmuEvent.unload ∈ events) :
    ∃ before, events = before ++ .unload :: events.rtakeWhile (· != PmuEvent.unload) := by
  induction events using List.reverseRecOn with
  | nil => cases h
  | append_singleton events event ih =>
    by_cases hevent : event = .unload
    · refine ⟨events, ?_⟩
      rw [List.rtakeWhile_concat_neg _ _ _ (by simp [hevent]), hevent]
    · have hmem : PmuEvent.unload ∈ events := by simpa [Ne.symm hevent] using h
      obtain ⟨before, hbefore⟩ := ih hmem
      refine ⟨before, ?_⟩
      rw [List.rtakeWhile_concat_pos _ _ _ (by simp [hevent])]
      rw [← List.cons_append, ← List.append_assoc, ← hbefore]

/-- From a set-up on, access and the undivided clock are lost by unloading only. -/
theorem flagsAfter_restored (events : List PmuEvent) (flags : PmuFlags)
    (haccess : flags.userAccess = true) (hdivided : flags.divided = false) :
    (flagsAfter i events flags).userAccess = true ∧ (flagsAfter i events flags).divided = false ↔
      Restored i events := by
  by_cases hmem : PmuEvent.unload ∈ events
  · obtain ⟨before, hbefore⟩ := exists_lastUnload hmem
    have hlast : PmuEvent.unload ∉ events.rtakeWhile (· != PmuEvent.unload) := fun h => by
      simpa using List.mem_rtakeWhile_imp h
    rw [Restored, forall_prop_of_true hmem]
    nth_rewrite 1 2 [hbefore]
    rw [flagsAfter_append]
    exact flagsAfter_noAccess i hlast
      (PmuEvent.onFlags i .unload (flagsAfter i before flags)) rfl rfl
  · obtain ⟨hkept, hclock⟩ := flagsAfter_access i hmem flags haccess
    exact iff_of_true ⟨hkept, hclock.2 (.inl hdivided)⟩ fun h => absurd h hmem

/-- The interrupt enables are written back with ones only where there are ones. -/
theorem pmintenset_actOn (event : PmuEvent) (registers : PmuRegisters) :
    (event.actOn i registers).pmintenset = registers.pmintenset := by
  cases event with
  | load =>
    change registers.pmintenset ||| (registers.pmintenset &&& _) = _
    ext j hj
    simp only [BitVec.getElem_or, BitVec.getElem_and]
    cases registers.pmintenset[j] <;> rfl
  | unload => rfl
  | timingInit cpu =>
    simp only [PmuEvent.actOn, armV8TimingInit]
    split_ifs <;> rfl
  | timerStart cpu =>
    simp only [PmuEvent.actOn, pageTimerStart]
    split_ifs <;> rfl

theorem pmintenset_afterEvents (events : List PmuEvent) (registers : PmuRegisters) :
    (afterEvents i events registers).pmintenset = registers.pmintenset := by
  induction events generalizing registers with
  | nil => rfl
  | cons event events ih => exact (ih _).trans (pmintenset_actOn i event registers)

end

/-- The set-up and the timer start trap exactly where user mode has no access. -/
theorem armV8TimingInit_isSome (registers : PmuRegisters) :
    (armV8TimingInit registers).isSome = registers.userAccess := by
  rw [armV8TimingInit]
  cases h : registers.userAccess <;> rfl

theorem pageTimerStart_isSome (registers : PmuRegisters) :
    (pageTimerStart registers).isSome = registers.userAccess := by
  rw [pageTimerStart]
  cases h : registers.userAccess <;> rfl

/-- A page run on one of several CPUs, with anything before its set-up and anything else, other
set-ups among it, between its set-up and its timer start. User mode has no access at first. The
set-up traps unless the last event on the module was a load. If it does not trap, the timer starts
with the counters enabled and the cycle counter on, and with access and an undivided clock exactly
if the module was not unloaded in between, or since the last time it was loaded again and a page run
set up on the CPU after that. The overflow interrupts stay as they were. -/
theorem pmu_pageRun {cpus : List PmuRegisters} {i : ℕ} {registers : PmuRegisters}
    (hcpu : cpus[i]? = some registers) (hfresh : registers.userAccess = false)
    (before between : List PmuEvent) :
    ∃ atInit atStart, (runPmuEvents before cpus)[i]? = some atInit ∧
      (runPmuEvents (before ++ .timingInit i :: between) cpus)[i]? = some atStart ∧
      ((armV8TimingInit atInit).isSome = true ↔
        (before.filterMap PmuEvent.access).getLast? = some true) ∧
      ((armV8TimingInit atInit).isSome = true →
        ((pageTimerStart atStart).isSome = true ∧ atStart.divided = false ↔
            Restored i between) ∧
          atStart.enabled = true ∧ atStart.counting = true) ∧
      atStart.pmintenset = registers.pmintenset := by
  have hinit := flags_afterEvents i before registers
  have hstart := flags_afterEvents i (before ++ .timingInit i :: between) registers
  have haccess := userAccess_flagsAfter i before registers.flags
  have hcounting := counting_flagsAfter i before registers.flags
    fun h => by cases hfresh.symm.trans h
  rw [← hinit] at haccess hcounting
  rw [flagsAfter_append, ← hinit] at hstart
  refine ⟨afterEvents i before registers, afterEvents i (before ++ .timingInit i :: between)
    registers, ?_, ?_, ?_, fun hset => ?_, pmintenset_afterEvents i _ registers⟩
  · rw [getElem?_runPmuEvents, hcpu]
    rfl
  · rw [getElem?_runPmuEvents, hcpu]
    rfl
  · rw [armV8TimingInit_isSome]
    change (afterEvents i before registers).flags.userAccess = true ↔ _
    rw [haccess, show registers.flags.userAccess = false from hfresh]
    cases (before.filterMap PmuEvent.access).getLast? with
    | none => simp
    | some access => simp
  · rw [armV8TimingInit_isSome] at hset
    have hready : PmuEvent.onFlags i (.timingInit i) (afterEvents i before registers).flags =
        ⟨true, true, false, true⟩ := by
      simp only [PmuEvent.onFlags]
      rw [if_pos ⟨trivial, hset⟩, hcounting hset]
    have hbegin : (afterEvents i (before ++ .timingInit i :: between) registers).flags =
        flagsAfter i between ⟨true, true, false, true⟩ := by
      rw [hstart, ← hready]
      rfl
    have hon := flagsAfter_on i between ⟨true, true, false, true⟩ ⟨rfl, rfl⟩
    have hrestored := flagsAfter_restored i between ⟨true, true, false, true⟩ rfl rfl
    rw [← hbegin] at hon hrestored
    rw [pageTimerStart_isSome]
    exact ⟨hrestored, hon⟩

/-- The module is loaded, unloaded after the set-up and loaded again, another page runs, and the
page is set up once more. -/
theorem pmu_pageRun_loaded :
    ∃ atInit atStart, (runPmuEvents [.load] [⟨0, 0, 0, 0⟩, ⟨8, 0, 0, 0⟩])[1]? = some atInit ∧
      (runPmuEvents ([.load] ++ .timingInit 1 ::
          [.unload, .timingInit 0, .load, .timerStart 0, .timingInit 1])
        [⟨0, 0, 0, 0⟩, ⟨8, 0, 0, 0⟩])[1]? = some atStart ∧
      (armV8TimingInit atInit).isSome = true ∧ (pageTimerStart atStart).isSome = true ∧
      atStart.divided = false := by
  have hcpu : [(⟨0, 0, 0, 0⟩ : PmuRegisters), ⟨8, 0, 0, 0⟩][1]? = some ⟨8, 0, 0, 0⟩ := rfl
  obtain ⟨atInit, atStart, hinit, hstart, hset, hrun, -⟩ :=
    pmu_pageRun hcpu (by decide) [.load]
      [.unload, .timingInit 0, .load, .timerStart 0, .timingInit 1]
  have hset := hset.2 rfl
  have hrestored : Restored 1 [.unload, .timingInit 0, .load, .timerStart 0, .timingInit 1] :=
    fun _ => by decide
  obtain ⟨haccess, hdivided⟩ := (hrun hset).1.2 hrestored
  exact ⟨atInit, atStart, hinit, hstart, hset, haccess, hdivided⟩

end OsirisArm
