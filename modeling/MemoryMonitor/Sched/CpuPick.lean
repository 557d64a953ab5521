import Mathlib.Data.Finset.Max
import MemoryMonitor.Lib.While

/-!
# The credit scheduler: picking a CPU

`_csched_cpu_pick` (`xen/common/sched_credit.c`): from the CPUs that a vCPU may run on,
the loop takes those that are idle one after the other, and moves to one whose
neighbours are idle enough. What it may still look at gets smaller in each turn because
a CPU is among its own threads and cores.
-/

namespace Sched.CpuPick

open While

/-- `cpumask_t`. -/
abbrev Mask := Finset ℕ

/-- `cpu_sibling_map` and `cpu_core_map`. -/
structure Topology where
  sibling : ℕ → Mask
  core : ℕ → Mask
  sibling_self : ∀ c, c ∈ sibling c
  core_self : ∀ c, c ∈ core c
  sibling_symm : ∀ c d, c ∈ sibling d ↔ d ∈ sibling c
  core_symm : ∀ c d, c ∈ core d ↔ d ∈ core c
  sibling_subset : ∀ c, sibling c ⊆ core c

/-- `NR_CPUS`. -/
def nrCpus : ℕ := 128

/-- `first_cpu`. -/
def firstCpu (mask : Mask) : ℕ := if h : mask.Nonempty then mask.min' h else nrCpus

/-- `cycle_cpu`: the next CPU in the mask, or the first one. -/
def cycleCpu (n : ℕ) (mask : Mask) : ℕ :=
  if (mask.filter (n < ·)).Nonempty then firstCpu (mask.filter (n < ·)) else firstCpu mask

/-- What the scheduler knows when it picks a CPU for a vCPU. -/
structure Env where
  topology : Topology
  /-- The CPUs of the pool. -/
  online : Mask
  affinity : Mask
  processor : ℕ
  cpuOnlineMap : Mask
  /-- `prv->idlers`. -/
  prvIdlers : Mask
  smtPowerSavings : Bool
  commit : Bool

/-- The local variables, with the `idle_bias` of each CPU; `asserts` is that no assertion has failed. -/
structure Pick where
  cpu : ℕ
  cpus : Mask
  idleBias : ℕ → ℕ
  asserts : Bool

namespace Env

variable (e : Env)

/-- The CPU the loop starts from. -/
def startCpu : ℕ :=
  if e.processor ∈ e.online ∩ e.affinity then e.processor else cycleCpu e.processor (e.online ∩ e.affinity)

def idlers : Mask := insert e.startCpu (e.cpuOnlineMap ∩ e.prvIdlers)

def start (idleBias : ℕ → ℕ) : Pick where
  cpu := e.startCpu
  cpus := ((e.online ∩ e.affinity) ∩ e.idlers).erase e.startCpu
  idleBias := idleBias
  asserts := decide (e.online ∩ e.affinity ≠ ∅ ∧ e.startCpu ∈ e.online ∩ e.affinity)

/-- `migrate_factor`, `cpu_idlers` and `nxt_idlers`. -/
def compared (cpu nxt : ℕ) : ℕ × Mask × Mask :=
  if cpu ∈ e.topology.core nxt then
    (1, e.idlers ∩ e.topology.sibling cpu, e.idlers ∩ e.topology.sibling nxt)
  else (2, e.idlers ∩ e.topology.core cpu, e.idlers ∩ e.topology.core nxt)

/-- `idle_bias` is moved on, when the pick is not just a question. -/
def biased (idleBias : ℕ → ℕ) (nxt cpu : ℕ) : ℕ → ℕ :=
  if e.commit then Function.update idleBias nxt cpu else idleBias

/-- The body of the loop. -/
def body (s : Pick) : Pick :=
  let nxt := cycleCpu s.cpu s.cpus
  let asserts := s.asserts && decide (s.cpu ∈ e.topology.core nxt ↔ nxt ∈ e.topology.core s.cpu)
  let (migrateFactor, cpuIdlers, nxtIdlers) := e.compared s.cpu nxt
  let weightCpu := cpuIdlers.card
  let weightNxt := nxtIdlers.card
  if (e.smtPowerSavings ∧ weightCpu > weightNxt) ∨
      (¬ e.smtPowerSavings ∧ weightCpu * migrateFactor < weightNxt) then
    let nxtIdlers := s.cpus ∩ nxtIdlers
    let cpu := cycleCpu (s.idleBias nxt) nxtIdlers
    { cpu := cpu
      cpus := s.cpus \ e.topology.sibling cpu
      idleBias := e.biased s.idleBias nxt cpu
      asserts := asserts }
  else { s with cpus := s.cpus \ nxtIdlers, asserts := asserts }

/-- `_csched_cpu_pick`, if the loop is left after at most `n` turns. -/
def cschedCpuPick (idleBias : ℕ → ℕ) (n : ℕ) : Option Pick :=
  turns (fun s => s.cpus ≠ ∅) e.body n (e.start idleBias)

end Env

/-! ## The loop -/

theorem cycleCpu_mem (n : ℕ) {mask : Mask} (h : mask.Nonempty) : cycleCpu n mask ∈ mask := by
  unfold cycleCpu firstCpu
  split_ifs with hnext
  · exact (Finset.mem_filter.mp (Finset.min'_mem _ hnext)).1
  · exact Finset.min'_mem _ h

variable {e : Env}

theorem startCpu_mem (h : (e.online ∩ e.affinity).Nonempty) : e.startCpu ∈ e.online ∩ e.affinity := by
  unfold Env.startCpu
  split_ifs with hproc
  · exact hproc
  · exact cycleCpu_mem _ h

/-- The CPUs that are compared are idle ones around the next CPU, and itself. -/
theorem compared_nxt {cpu nxt : ℕ} (hidle : nxt ∈ e.idlers) : nxt ∈ (e.compared cpu nxt).2.2 := by
  unfold Env.compared
  split_ifs
  · exact Finset.mem_inter.mpr ⟨hidle, e.topology.sibling_self nxt⟩
  · exact Finset.mem_inter.mpr ⟨hidle, e.topology.core_self nxt⟩

/-- What holds before each turn. -/
structure Sound (e : Env) (s : Pick) : Prop where
  asserts : s.asserts = true
  cpu : s.cpu = e.startCpu ∨ s.cpu ∈ (e.online ∩ e.affinity) ∩ e.idlers
  cpus : s.cpus ⊆ (e.online ∩ e.affinity) ∩ e.idlers

theorem Sound.start (idleBias : ℕ → ℕ) (h : (e.online ∩ e.affinity).Nonempty) : Sound e (e.start idleBias) := by
  refine ⟨decide_eq_true ⟨h.ne_empty, startCpu_mem h⟩, .inl rfl, ?_⟩
  exact Finset.erase_subset _ _

/-- A turn keeps the invariant and takes a CPU away. -/
theorem Sound.body {s : Pick} (h : Sound e s) (hne : s.cpus ≠ ∅) :
    Sound e (e.body s) ∧ (e.body s).cpus.card < s.cpus.card := by
  have hnxt := cycleCpu_mem s.cpu (Finset.nonempty_iff_ne_empty.mpr hne)
  have hmem := @compared_nxt e s.cpu _ (Finset.mem_inter.mp (h.cpus hnxt)).2
  have hasserts : (s.asserts && decide (s.cpu ∈ e.topology.core (cycleCpu s.cpu s.cpus) ↔
      cycleCpu s.cpu s.cpus ∈ e.topology.core s.cpu)) = true := by
    rw [h.asserts, Bool.true_and, decide_eq_true_eq]
    exact e.topology.core_symm _ _
  -- What is left out is a CPU of the mask at least.
  have hsmaller : ∀ (c : ℕ) (mask : Mask), c ∈ s.cpus → c ∈ mask → (s.cpus \ mask).card < s.cpus.card := by
    intro c mask hc hmask
    refine Finset.card_lt_card (Finset.ssubset_iff_subset_ne.mpr ⟨Finset.sdiff_subset, fun heq => ?_⟩)
    rw [← heq] at hc
    exact (Finset.mem_sdiff.mp hc).2 hmask
  unfold Env.body
  dsimp only
  split_ifs
  · -- It moves to an idle neighbour of the next CPU.
    have hcpu := cycleCpu_mem (s.idleBias (cycleCpu s.cpu s.cpus)) ⟨_, Finset.mem_inter.mpr ⟨hnxt, hmem⟩⟩
    have hcpus := (Finset.mem_inter.mp hcpu).1
    exact ⟨⟨hasserts, .inr (h.cpus hcpus), Finset.sdiff_subset.trans h.cpus⟩,
      hsmaller _ _ hcpus (e.topology.sibling_self _)⟩
  · exact ⟨⟨hasserts, h.cpu, Finset.sdiff_subset.trans h.cpus⟩, hsmaller _ _ hnxt hmem⟩

/-- The loop ends after at most as many turns as there are candidates. No assertion fails, and the CPU is one
of the pool that the vCPU may run on: the one it started from, or an idle one. -/
theorem cschedCpuPick_sound (e : Env) (idleBias : ℕ → ℕ) (h : (e.online ∩ e.affinity).Nonempty) :
    ∃ s, e.cschedCpuPick idleBias (e.start idleBias).cpus.card = some s ∧ s.asserts = true ∧
      s.cpu ∈ e.online ∧ s.cpu ∈ e.affinity ∧
      (s.cpu = e.startCpu ∨ (s.cpu ∈ e.cpuOnlineMap ∧ s.cpu ∈ e.prvIdlers)) := by
  obtain ⟨s, hrun, hs, -⟩ := turns_ends (I := Sound e) (fun s => s.cpus.card)
    (fun _ hs hne => hs.body hne) (Nat.le_refl _) (Sound.start idleBias h)
  refine ⟨s, hrun, hs.asserts, ?_⟩
  rcases hs.cpu with heq | hmem
  · have hstart := Finset.mem_inter.mp (startCpu_mem h)
    rw [heq]
    exact ⟨hstart.1, hstart.2, .inl rfl⟩
  · obtain ⟨hboth, hidle⟩ := Finset.mem_inter.mp hmem
    obtain ⟨honline, haffinity⟩ := Finset.mem_inter.mp hboth
    refine ⟨honline, haffinity, ?_⟩
    exact (Finset.mem_insert.mp hidle).imp_right Finset.mem_inter.mp

/-- A socket with two cores and one with three. -/
def twoSockets : Topology where
  sibling c := {c}
  core c := if c < 2 then {0, 1} else if c < 5 then {2, 3, 4} else {c}
  sibling_self := by simp
  core_self c := by
    split_ifs
    · simp
      omega
    · simp
      omega
    · simp
  sibling_symm := by simp [eq_comm]
  core_symm c d := by
    split_ifs <;> simp <;> omega
  sibling_subset c := by
    rw [Finset.singleton_subset_iff]
    split_ifs
    · simp
      omega
    · simp
      omega
    · simp

/-- A vCPU on the first socket, while the second one is idle. -/
def apart : Env where
  topology := twoSockets
  online := {0, 1, 2, 3, 4}
  affinity := {0, 2, 3, 4}
  processor := 0
  cpuOnlineMap := {0, 1, 2, 3, 4}
  prvIdlers := {2, 3, 4}
  smtPowerSavings := false
  commit := true

theorem cschedCpuPick_apart : ∃ s, apart.cschedCpuPick (fun c => c) (apart.start fun c => c).cpus.card = some s ∧
    s.cpu = 3 ∧ s.cpu ∈ apart.online ∧ s.cpu ∈ apart.affinity := by
  obtain ⟨s, hrun, -, honline, haffinity, -⟩ := cschedCpuPick_sound apart (fun c => c) ⟨0, by decide⟩
  have hcpu : (apart.cschedCpuPick (fun c => c) (apart.start fun c => c).cpus.card).map Pick.cpu = some 3 := by
    decide +kernel
  rw [hrun] at hcpu
  exact ⟨s, hrun, Option.some.inj hcpu, honline, haffinity⟩

end Sched.CpuPick
