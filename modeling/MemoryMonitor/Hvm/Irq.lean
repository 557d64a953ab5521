import Mathlib
import MemoryMonitor.Lib.Runs
import MemoryMonitor.Lib.Tally

/-!
# The interrupt wires of an HVM domain

`xen/arch/x86/hvm/irq.c`: the wires of PCI and ISA devices, the PCI-ISA links with their routes,
and the callback of the paravirtual drivers are all led to GSIs, and `gsi_assert_count` counts how
many of them assert each GSI. The controllers see an edge when a count leaves zero or comes back
to it.

Wire 0 of the ISA bus is led to GSI 2, but to input 0 of the 8259s. Whether that input sees an
edge depends on the count of GSI 2, which other sources can be led to as well.
-/

open Tally

namespace Hvm.Irq

/-- `hvm_pci_intx_gsi`; a wire has the number `device * 4 + intx`. -/
def gsiOf (w : Fin 128) : Nat := (w.val / 4 * 4 + w.val / 4 / 8 + w.val % 4) % 32 + 16

/-- `hvm_pci_intx_link`. -/
def linkOf (w : Fin 128) : Fin 4 := ⟨(w.val / 4 + w.val % 4) % 4, Nat.mod_lt _ (by decide)⟩

/-- `hvm_isa_irq_to_gsi`. -/
def isaGsi (i : Fin 16) : Nat := if i.val = 0 then 2 else i.val

/-- `callback_via_type` and `callback_via`. -/
inductive Via where
  | none
  | gsi (gsi : Nat)
  | pciIntx (w : Fin 128)
  | vector (vector : Nat)
  deriving DecidableEq

/-- What is called when a count leaves zero or comes back: `vioapic_irq_positive_edge`,
`send_guest_pirq`, `vpic_irq_positive_edge` and `vpic_irq_negative_edge`. -/
inductive Edge where
  | ioapic (gsi : Nat)
  | pirq (gsi : Nat)
  | high (i : Nat)
  | low (i : Nat)

/-- `hvm_irq`, with the level that each input of the 8259s was driven to last, and the positive
edges that the I/O APIC has seen. -/
structure State where
  pciIntx : Fin 128 → Bool
  isaIrq : Fin 16 → Bool
  route : Fin 4 → Nat
  asserted : Bool
  via : Via
  /-- `pci_link_assert_count` and `gsi_assert_count`: a byte for each. -/
  linkCount : Fin 4 → Nat
  gsiCount : Nat → Nat
  /-- The GSI is bound to an event channel of the domain. -/
  usePirq : Nat → Bool
  pic : Nat → Bool
  raised : List Nat

/-- `VIOAPIC_NUM_PINS`. -/
def numPins : Nat := 48

def inc8 (n : Nat) : Nat := (n + 1) % 256
def dec8 (n : Nat) : Nat := (n + 255) % 256

namespace Edge

/-- What an edge does to the inputs of the 8259s. -/
def drive (pic : Nat → Bool) : Edge → Nat → Bool
  | .high i => Function.update pic i true
  | .low i => Function.update pic i false
  | _ => pic

def pin : Edge → Option Nat
  | .ioapic gsi => some gsi
  | _ => none

end Edge

namespace State

/-- A count gets the value `n`, and if it `fires` then the edges follow. -/
def setCount (s : State) (gsi n : Nat) (fires : Bool) (edges : List Edge) : State :=
  { s with
    gsiCount := Function.update s.gsiCount gsi n
    pic := if fires then edges.foldl Edge.drive s.pic else s.pic
    raised := if fires then s.raised ++ edges.filterMap Edge.pin else s.raised }

/-- `if ( gsi_assert_count[gsi]++ == 0 )`. -/
def raise (s : State) (gsi : Nat) (edges : List Edge) : State :=
  s.setCount gsi (inc8 (s.gsiCount gsi)) (s.gsiCount gsi = 0) edges

/-- `if ( --gsi_assert_count[gsi] == 0 )`. -/
def lower (s : State) (gsi : Nat) (edges : List Edge) : State :=
  s.setCount gsi (dec8 (s.gsiCount gsi)) (dec8 (s.gsiCount gsi) = 0) edges

/-- `assert_gsi`, `assert_irq` and `deassert_irq`. -/
def assertGsi (s : State) (gsi : Nat) : List Edge := [if s.usePirq gsi then .pirq gsi else .ioapic gsi]

def assertIrq (s : State) (gsi i : Nat) : List Edge := s.assertGsi gsi ++ [.high i]

def deassertIrq (s : State) (i : Nat) : List Edge := if s.usePirq i then [] else [.low i]

/-- The edges for the callback, which does not look for a pirq. -/
def viaHigh (gsi : Nat) : List Edge := .ioapic gsi :: if gsi ≤ 15 then [.high gsi] else []

def viaLow (gsi : Nat) : List Edge := if gsi ≤ 15 then [.low gsi] else []

def setWire (s : State) (w : Fin 128) (level : Bool) : State :=
  { s with pciIntx := Function.update s.pciIntx w level }

def setIsa (s : State) (i : Fin 16) (level : Bool) : State :=
  { s with isaIrq := Function.update s.isaIrq i level }

def setLink (s : State) (link : Fin 4) (n : Nat) : State :=
  { s with linkCount := Function.update s.linkCount link n }

/-- `__hvm_pci_intx_assert`. -/
def pciIntxAssert (s : State) (w : Fin 128) : State :=
  if s.pciIntx w then s
  else
    let s := s.setWire w true
    let s := s.raise (gsiOf w) (s.assertGsi (gsiOf w))
    let link := linkOf w
    let isaIrq := s.route link
    let first : Bool := s.linkCount link = 0
    let s := s.setLink link (inc8 (s.linkCount link))
    if first ∧ isaIrq ≠ 0 then s.raise isaIrq (s.assertIrq isaIrq isaIrq) else s

/-- `__hvm_pci_intx_deassert`. -/
def pciIntxDeassert (s : State) (w : Fin 128) : State :=
  if !s.pciIntx w then s
  else
    let s := s.setWire w false
    let s := s.lower (gsiOf w) []
    let link := linkOf w
    let isaIrq := s.route link
    let s := s.setLink link (dec8 (s.linkCount link))
    if s.linkCount link = 0 ∧ isaIrq ≠ 0 then s.lower isaIrq (s.deassertIrq isaIrq) else s

/-- `hvm_isa_irq_assert`. -/
def isaIrqAssert (s : State) (i : Fin 16) : State :=
  if s.isaIrq i then s
  else
    let s := s.setIsa i true
    s.raise (isaGsi i) (s.assertIrq (isaGsi i) i)

/-- `hvm_isa_irq_deassert`. -/
def isaIrqDeassert (s : State) (i : Fin 16) : State :=
  if !s.isaIrq i then s
  else
    let s := s.setIsa i false
    s.lower (isaGsi i) (s.deassertIrq i)

/-- The callback that is set starts or stops to be asserted. -/
def driveVia (s : State) (level : Bool) : State :=
  match s.via with
  | .gsi gsi => if level then s.raise gsi (viaHigh gsi) else s.lower gsi (viaLow gsi)
  | .pciIntx w => if level then s.pciIntxAssert w else s.pciIntxDeassert w
  | _ => s

def setAsserted (s : State) (asserted : Bool) : State := { s with asserted := asserted }

def setVia (s : State) (via : Via) : State := { s with via := via }

/-- `hvm_set_callback_irq_level`. -/
def setCallbackIrqLevel (s : State) (asserted : Bool) : State :=
  if s.asserted = asserted then s else (s.setAsserted asserted).driveVia asserted

def setRoute (s : State) (link : Fin 4) (isaIrq : Nat) : State :=
  { s with route := Function.update s.route link isaIrq }

/-- `hvm_set_pci_link_route`. -/
def setPciLinkRoute (s : State) (link : Fin 4) (isaIrq : Fin 16) : State :=
  let old := s.route link
  if old = isaIrq then s
  else
    let s := s.setRoute link isaIrq.val
    if s.linkCount link = 0 then s
    else
      let s := if old ≠ 0 then s.lower old [.low old] else s
      if isaIrq.val ≠ 0 then s.raise isaIrq [.ioapic isaIrq, .high isaIrq] else s

/-- What `hvm_set_callback_via` makes of its argument. -/
def decodeVia (via : BitVec 64) : Via :=
  match (via.toNat / 2 ^ 56 + 1) % 256 with
  | 1 =>
      let gsi := via.toNat % 256
      if via = 0 ∨ gsi = 0 ∨ numPins ≤ gsi then .none else .gsi gsi
  | 2 =>
      .pciIntx ⟨via.toNat / 2 ^ 11 % 32 * 4 + via.toNat % 4, by omega⟩
  | 3 => .vector (via.toNat % 256)
  | _ => .none

/-- `hvm_set_callback_via`. -/
def setCallbackVia (s : State) (via : BitVec 64) : State :=
  let s := if s.asserted then s.driveVia false else s
  let s := s.setVia (decodeVia via)
  if s.asserted then s.driveVia true else s

/-- The counts go up for each source that is on, and nothing is driven. -/
def recount {n : Nat} {κ : Type} [DecidableEq κ] (on : Fin n → Bool) (f : Fin n → κ) (counts : κ → Nat) : κ → Nat :=
  (List.finRange n).foldl (fun c i => if on i then Function.update c (f i) (inc8 (c (f i))) else c) counts

/-- `irq_load_pci`. -/
def loadPci (s : State) (pciIntx : Fin 128 → Bool) : State :=
  { s with
    pciIntx := pciIntx
    linkCount := recount pciIntx linkOf fun _ => 0
    gsiCount := recount pciIntx gsiOf fun _ => 0 }

/-- `irq_load_isa`. -/
def loadIsa (s : State) (isaIrq : Fin 16 → Bool) : State :=
  { s with isaIrq := isaIrq, gsiCount := recount isaIrq isaGsi s.gsiCount }

/-- `irq_load_link`. A route that is out of range is an error, but has been loaded. -/
def loadLink (s : State) (route : Fin 4 → Nat) : State :=
  let s := { s with route := route }
  if ∃ link, 15 < s.route link then s
  else { s with gsiCount := recount (fun link => s.linkCount link ≠ 0 && s.route link ≠ 0) s.route s.gsiCount }

end State

inductive Step where
  | pciIntxAssert (w : Fin 128)
  | pciIntxDeassert (w : Fin 128)
  | isaIrqAssert (i : Fin 16)
  | isaIrqDeassert (i : Fin 16)
  | setPciLinkRoute (link : Fin 4) (isaIrq : Fin 16)
  | setCallbackVia (via : BitVec 64)
  | setCallbackIrqLevel (asserted : Bool)
  /-- The records `PCI_IRQ`, `ISA_IRQ` and `PCI_LINK` are loaded. -/
  | load (pciIntx : Fin 128 → Bool) (isaIrq : Fin 16 → Bool) (route : Fin 4 → Nat)

def act (step : Step) (s : State) : State :=
  match step with
  | .pciIntxAssert w => s.pciIntxAssert w
  | .pciIntxDeassert w => s.pciIntxDeassert w
  | .isaIrqAssert i => s.isaIrqAssert i
  | .isaIrqDeassert i => s.isaIrqDeassert i
  | .setPciLinkRoute link isaIrq => s.setPciLinkRoute link isaIrq
  | .setCallbackVia via => s.setCallbackVia via
  | .setCallbackIrqLevel asserted => s.setCallbackIrqLevel asserted
  | .load pciIntx isaIrq route => ((s.loadPci pciIntx).loadIsa isaIrq).loadLink route

/-- A new domain. -/
def init (usePirq : Nat → Bool) : State where
  pciIntx _ := false
  isaIrq _ := false
  route _ := 0
  asserted := false
  via := .none
  linkCount _ := 0
  gsiCount _ := 0
  usePirq := usePirq
  pic _ := false
  raised := []

/-! ## The property -/

namespace State

variable (s : State)

/-- The link is asserted and has a route. -/
def linkOn (link : Fin 4) : Bool := s.linkCount link ≠ 0 && s.route link ≠ 0

/-- How many links that are asserted are routed to the GSI. -/
def links (g : Nat) : Nat := tally s.linkOn s.route g

/-- The callback asserts the GSI. -/
def callback (g : Nat) : Nat := if s.asserted ∧ s.via = .gsi g then 1 else 0

/-- How many sources assert the GSI. -/
def sources (g : Nat) : Nat := tally s.pciIntx gsiOf g + tally s.isaIrq isaGsi g + s.links g + s.callback g

/-- The counts are the numbers of sources, which fit in a byte. -/
structure Counted : Prop where
  link : ∀ l, s.linkCount l = tally s.pciIntx linkOf l ∧ tally s.pciIntx linkOf l < 256
  gsi : ∀ g, s.gsiCount g = s.sources g ∧ s.sources g < 256

/-- The inputs of the 8259s have been driven to where the sources are. -/
structure Driven : Prop where
  timer : s.pic 0 = s.isaIrq 0
  input : ∀ i, 1 ≤ i → i ≤ 15 → i ≠ 2 → s.pic i = decide (s.gsiCount i ≠ 0)

end State

/-- A load is for a domain whose callback is not asserted. -/
def Admitted (step : Step) (s : State) : Prop :=
  match step with
  | .load _ _ _ => s.asserted = false
  | _ => True

/-- The routes that are loaded are in range. -/
def Step.inRange : Step → Prop
  | .load _ _ route => ∀ link, route link ≤ 15
  | _ => True

/-- The step is not a load. -/
def Step.live : Step → Prop
  | .load _ _ _ => False
  | _ => True

local instance neZero_lines : NeZero 16 := ⟨by decide⟩

/-- Wire 0 of the ISA bus changes only while no other source asserts GSI 2. -/
def TimerAlone (step : Step) (s : State) : Prop :=
  match step with
  | .isaIrqAssert i => i = 0 → s.isaIrq 0 = true ∨ s.gsiCount 2 = 0
  | .isaIrqDeassert i => i = 0 → s.isaIrq 0 = false ∨ s.gsiCount 2 = 1
  | _ => True

/-! ## The counts -/

theorem inc8_eq {n : Nat} (h : n < 255) : inc8 n = n + 1 := Nat.mod_eq_of_lt (Nat.succ_lt_succ h)

theorem dec8_eq {n : Nat} (h0 : 0 < n) (h : n < 256) : dec8 n = n - 1 := by
  unfold dec8
  omega

namespace State

variable {s : State}

theorem links_le (s : State) (g : Nat) : s.links g ≤ 4 := tally_le_card ..

theorem callback_le (s : State) (g : Nat) : s.callback g ≤ 1 := by
  unfold callback
  split <;> decide

/-- The sources of a GSI are fewer than a byte holds. -/
theorem sources_lt (s : State) (g : Nat) : s.sources g < 150 := by
  have h1 : tally s.pciIntx gsiOf g ≤ 128 := tally_le_card ..
  have h2 : tally s.isaIrq isaGsi g ≤ 16 := tally_le_card ..
  have h3 := s.links_le g
  have h4 := s.callback_le g
  unfold sources
  omega

theorem wires_le (s : State) (l : Fin 4) : tally s.pciIntx linkOf l ≤ 128 := tally_le_card ..

theorem Counted.of_eq (hlink : ∀ l, s.linkCount l = tally s.pciIntx linkOf l)
    (hgsi : ∀ g, s.gsiCount g = s.sources g) : s.Counted := by
  refine ⟨fun l => ⟨hlink l, ?_⟩, fun g => ⟨hgsi g, ?_⟩⟩
  · exact Nat.lt_of_le_of_lt (s.wires_le l) (by decide)
  · exact Nat.lt_trans (s.sources_lt g) (by decide)

theorem setCount_gsiCount (s : State) (gsi n : Nat) (fires : Bool) (edges : List Edge) (g : Nat) :
    (s.setCount gsi n fires edges).gsiCount g = if g = gsi then n else s.gsiCount g := by
  show Function.update s.gsiCount gsi n g = _
  rw [Function.update_apply]

theorem setCount_setAsserted (s : State) (gsi n : Nat) (fires : Bool) (edges : List Edge) (a : Bool) :
    (s.setAsserted a).setCount gsi n fires edges = (s.setCount gsi n fires edges).setAsserted a := rfl

theorem raise_gsiCount {gsi : Nat} (h : s.gsiCount gsi < 255) (edges : List Edge) (g : Nat) :
    (s.raise gsi edges).gsiCount g = s.gsiCount g + if gsi = g then 1 else 0 := by
  unfold raise
  rw [setCount_gsiCount, inc8_eq h]
  by_cases hg : g = gsi
  · rw [if_pos hg, if_pos hg.symm, hg]
  · rw [if_neg hg, if_neg fun h => hg h.symm, Nat.add_zero]

theorem lower_gsiCount {gsi : Nat} (h0 : 0 < s.gsiCount gsi) (h : s.gsiCount gsi < 256) (edges : List Edge)
    (g : Nat) : (s.lower gsi edges).gsiCount g + (if gsi = g then 1 else 0) = s.gsiCount g := by
  unfold lower
  rw [setCount_gsiCount, dec8_eq h0 h]
  by_cases hg : g = gsi
  · rw [if_pos hg, if_pos hg.symm, hg]
    omega
  · rw [if_neg hg, if_neg fun h => hg h.symm, Nat.add_zero]

theorem links_change (s s' : State) (l : Fin 4) (hcount : ∀ j, j ≠ l → s'.linkCount j = s.linkCount j)
    (hroute : ∀ j, j ≠ l → s'.route j = s.route j) (g : Nat) :
    s'.links g + weight (s.linkOn l) (s.route l) g = s.links g + weight (s'.linkOn l) (s'.route l) g := by
  have hon : ∀ j, j ≠ l → s'.linkOn j = s.linkOn j := by
    intro j hj
    unfold linkOn
    rw [hcount j hj, hroute j hj]
  exact tally_change l hon hroute g

theorem weight_eq (on : Bool) (a k : Nat) : weight on a k = if on then (if a = k then 1 else 0) else 0 := by
  cases on with
  | true => exact weight_on a k
  | false => rfl

/-! ## The wires -/

theorem Counted.lt (h : s.Counted) (g : Nat) : s.gsiCount g < 150 := by
  rw [(h.gsi g).1]
  exact s.sources_lt g

theorem Counted.wire_pos (h : s.Counted) {w : Fin 128} (hon : s.pciIntx w = true) : 0 < s.gsiCount (gsiOf w) := by
  have htally := tally_pos hon gsiOf
  rw [(h.gsi (gsiOf w)).1]
  unfold sources
  omega

theorem Counted.isa_pos (h : s.Counted) {i : Fin 16} (hon : s.isaIrq i = true) : 0 < s.gsiCount (isaGsi i) := by
  have htally := tally_pos hon isaGsi
  rw [(h.gsi (isaGsi i)).1]
  unfold sources
  omega

theorem Counted.link_pos (h : s.Counted) {l : Fin 4} (hon : s.linkOn l = true) : 0 < s.gsiCount (s.route l) := by
  have hpos : 0 < s.links (s.route l) := tally_pos hon s.route
  rw [(h.gsi (s.route l)).1]
  unfold sources
  omega

/-- The link of a wire is a source besides the wire. -/
theorem Counted.both_pos (h : s.Counted) {w : Fin 128} (hwire : s.pciIntx w = true) (hon : s.linkOn (linkOf w) = true) :
    (if gsiOf w = s.route (linkOf w) then 1 else 0) < s.gsiCount (s.route (linkOf w)) := by
  split
  · rename_i hsame
    have htally := tally_pos hwire gsiOf
    have hpos : 0 < s.links (s.route (linkOf w)) := tally_pos hon s.route
    rw [hsame] at htally
    rw [(h.gsi (s.route (linkOf w))).1]
    unfold sources
    omega
  · exact h.link_pos hon

theorem Counted.callback_pos (h : s.Counted) {g : Nat} (hvia : s.via = .gsi g) (hasserted : s.asserted = true) :
    0 < s.gsiCount g := by
  have hone : s.callback g = 1 := if_pos ⟨hasserted, hvia⟩
  rw [(h.gsi g).1]
  unfold sources
  omega

theorem linkOn_iff {l : Fin 4} : s.linkOn l = true ↔ s.linkCount l ≠ 0 ∧ s.route l ≠ 0 := by
  unfold linkOn
  rw [Bool.and_eq_true, decide_eq_true_iff, decide_eq_true_iff]

/-- What is left alone by everything but a load. -/
def rest (s : State) : (Fin 16 → Bool) × (Fin 4 → Nat) × Bool × Via := (s.isaIrq, s.route, s.asserted, s.via)

theorem pciIntxAssert_spec (h : s.Counted) {w : Fin 128} (hoff : s.pciIntx w = false) :
    (s.pciIntxAssert w).rest = s.rest ∧
    (s.pciIntxAssert w).pciIntx = Function.update s.pciIntx w true ∧
    (s.pciIntxAssert w).linkCount =
      Function.update s.linkCount (linkOf w) (s.linkCount (linkOf w) + 1) ∧
    ∀ g, (s.pciIntxAssert w).gsiCount g = s.gsiCount g + (if gsiOf w = g then 1 else 0) +
      if s.linkCount (linkOf w) = 0 ∧ s.route (linkOf w) ≠ 0 then (if s.route (linkOf w) = g then 1 else 0) else 0 := by
  have hinc : inc8 (s.linkCount (linkOf w)) = s.linkCount (linkOf w) + 1 := by
    have hl := (h.link (linkOf w)).1
    have hlt := s.wires_le (linkOf w)
    exact inc8_eq (by omega)
  have hlinks : Function.update s.linkCount (linkOf w) (inc8 (s.linkCount (linkOf w))) =
      Function.update s.linkCount (linkOf w) (s.linkCount (linkOf w) + 1) := by
    rw [hinc]
  -- the state after the GSI of the wire has been counted
  have hfirst : ∀ edges g, ((s.setWire w true).raise (gsiOf w) edges).gsiCount g =
      s.gsiCount g + if gsiOf w = g then 1 else 0 := by
    intro edges g
    exact raise_gsiCount (Nat.lt_trans (h.lt (gsiOf w)) (by decide)) edges g
  unfold State.pciIntxAssert
  rw [hoff, if_neg Bool.false_ne_true]
  dsimp only
  split
  · rename_i hlink
    have hzero : s.linkCount (linkOf w) = 0 := of_decide_eq_true hlink.1
    have hcond : s.linkCount (linkOf w) = 0 ∧ s.route (linkOf w) ≠ 0 := ⟨hzero, hlink.2⟩
    refine ⟨rfl, rfl, hlinks, fun g => ?_⟩
    rw [if_pos hcond, ← hfirst ((s.setWire w true).assertGsi (gsiOf w))]
    refine raise_gsiCount ?_ _ g
    have hlt := h.lt (s.route (linkOf w))
    have heq := hfirst ((s.setWire w true).assertGsi (gsiOf w)) (s.route (linkOf w))
    refine heq.trans_lt ?_
    split <;> omega
  · rename_i hlink
    have hcond : ¬(s.linkCount (linkOf w) = 0 ∧ s.route (linkOf w) ≠ 0) := by
      intro hc
      exact hlink ⟨decide_eq_true hc.1, hc.2⟩
    refine ⟨rfl, rfl, hlinks, fun g => ?_⟩
    rw [if_neg hcond, Nat.add_zero]
    exact hfirst ((s.setWire w true).assertGsi (gsiOf w)) g

theorem sources_wire {s' : State} {l : Fin 4} (hrest : s'.rest = s.rest)
    (hcount : ∀ j, j ≠ l → s'.linkCount j = s.linkCount j) (g : Nat) :
    s'.sources g + tally s.pciIntx gsiOf g + weight (s.linkOn l) (s.route l) g =
      s.sources g + tally s'.pciIntx gsiOf g + weight (s'.linkOn l) (s.route l) g := by
  simp only [rest, Prod.mk.injEq] at hrest
  rcases hrest with ⟨hisa, hroute, hasserted, hvia⟩
  have hlinks := links_change s s' l hcount (fun j _ => by rw [hroute]) g
  rw [hroute] at hlinks
  unfold sources callback
  rw [hisa, hasserted, hvia]
  omega

theorem Counted.pciIntxAssert (h : s.Counted) (w : Fin 128) : (s.pciIntxAssert w).Counted := by
  cases hoff : s.pciIntx w with
  | true =>
    unfold State.pciIntxAssert
    rw [hoff, if_pos rfl]
    exact h
  | false =>
    rcases pciIntxAssert_spec h hoff with ⟨hrest, hwire, hlink, hgsi⟩
    have hroute : (s.pciIntxAssert w).route = s.route := congrArg (·.2.1) hrest
    refine .of_eq (fun l => ?_) fun g => ?_
    · rw [hlink, hwire, tally_on hoff, Function.update_apply]
      by_cases hl : l = linkOf w
      · rw [if_pos hl, if_pos hl.symm, hl, (h.link (linkOf w)).1]
      · rw [if_neg hl, if_neg fun he => hl he.symm, Nat.add_zero, (h.link l).1]
    · have hsources := sources_wire (l := linkOf w) hrest (fun j hj => by rw [hlink, Function.update_of_ne hj]) g
      have hon : (s.pciIntxAssert w).linkOn (linkOf w) = decide (s.route (linkOf w) ≠ 0) := by
        unfold linkOn
        rw [hlink, hroute, Function.update_self]
        simp
      have hcount := (h.gsi g).1
      rw [hwire, tally_on hoff, hon, weight_eq, weight_eq] at hsources
      rw [hgsi g]
      unfold linkOn at hsources
      by_cases hz : s.linkCount (linkOf w) = 0
      · by_cases hr : s.route (linkOf w) = 0
        · simp [hz, hr] at hsources ⊢
          omega
        · simp [hz, hr] at hsources ⊢
          omega
      · by_cases hr : s.route (linkOf w) = 0
        · simp [hz, hr] at hsources ⊢
          omega
        · simp [hz, hr] at hsources ⊢
          omega

theorem pciIntxDeassert_spec (h : s.Counted) {w : Fin 128} (hon : s.pciIntx w = true) :
    (s.pciIntxDeassert w).rest = s.rest ∧
    (s.pciIntxDeassert w).pciIntx = Function.update s.pciIntx w false ∧
    (s.pciIntxDeassert w).linkCount =
      Function.update s.linkCount (linkOf w) (s.linkCount (linkOf w) - 1) ∧
    0 < s.linkCount (linkOf w) ∧
    ∀ g, (s.pciIntxDeassert w).gsiCount g + (if gsiOf w = g then 1 else 0) +
      (if s.linkCount (linkOf w) = 1 ∧ s.route (linkOf w) ≠ 0 then (if s.route (linkOf w) = g then 1 else 0) else 0) =
      s.gsiCount g := by
  have hl := (h.link (linkOf w)).1
  have hpos : 0 < s.linkCount (linkOf w) := by
    rw [hl]
    exact tally_pos hon linkOf
  have hdec : dec8 (s.linkCount (linkOf w)) = s.linkCount (linkOf w) - 1 := by
    have hlt := s.wires_le (linkOf w)
    exact dec8_eq hpos (by omega)
  have hlinks : Function.update s.linkCount (linkOf w) (dec8 (s.linkCount (linkOf w))) =
      Function.update s.linkCount (linkOf w) (s.linkCount (linkOf w) - 1) := by
    rw [hdec]
  have hdirect : 0 < s.gsiCount (gsiOf w) := h.wire_pos hon
  have hfirst : ∀ edges g, ((s.setWire w false).lower (gsiOf w) edges).gsiCount g + (if gsiOf w = g then 1 else 0) =
      s.gsiCount g := by
    intro edges g
    exact lower_gsiCount hdirect (Nat.lt_trans (h.lt (gsiOf w)) (by decide)) edges g
  have hzero : (Function.update s.linkCount (linkOf w) (dec8 (s.linkCount (linkOf w))) (linkOf w) = 0) ↔
      s.linkCount (linkOf w) = 1 := by
    rw [Function.update_self, hdec]
    omega
  unfold State.pciIntxDeassert
  rw [hon, Bool.not_true, if_neg Bool.false_ne_true]
  dsimp only
  split
  · rename_i hlink
    have hcond : s.linkCount (linkOf w) = 1 ∧ s.route (linkOf w) ≠ 0 := ⟨hzero.1 hlink.1, hlink.2⟩
    refine ⟨rfl, rfl, hlinks, hpos, fun g => ?_⟩
    have heq := hfirst [] (s.route (linkOf w))
    -- the link is one of the sources of its GSI, besides the wire
    have hboth : 0 < ((s.setWire w false).lower (gsiOf w) []).gsiCount (s.route (linkOf w)) := by
      have hpair := h.both_pos hon (linkOn_iff.2 ⟨Nat.ne_of_gt hpos, hcond.2⟩)
      omega
    have hlt : ((s.setWire w false).lower (gsiOf w) []).gsiCount (s.route (linkOf w)) < 256 := by
      have := h.lt (s.route (linkOf w))
      omega
    have hsecond : ∀ edges, ((((s.setWire w false).lower (gsiOf w) []).setLink (linkOf w)
        (dec8 (s.linkCount (linkOf w)))).lower (s.route (linkOf w)) edges).gsiCount g +
        (if s.route (linkOf w) = g then 1 else 0) = ((s.setWire w false).lower (gsiOf w) []).gsiCount g :=
      fun edges => lower_gsiCount hboth hlt edges g
    rw [if_pos hcond, Nat.add_right_comm]
    exact (congrArg (· + _) (hsecond _)).trans (hfirst [] g)
  · rename_i hlink
    have hcond : ¬(s.linkCount (linkOf w) = 1 ∧ s.route (linkOf w) ≠ 0) := by
      intro hc
      exact hlink ⟨hzero.2 hc.1, hc.2⟩
    refine ⟨rfl, rfl, hlinks, hpos, fun g => ?_⟩
    rw [if_neg hcond, Nat.add_zero]
    exact hfirst [] g

theorem Counted.pciIntxDeassert (h : s.Counted) (w : Fin 128) : (s.pciIntxDeassert w).Counted := by
  cases hon : s.pciIntx w with
  | false =>
    unfold State.pciIntxDeassert
    rw [hon, Bool.not_false, if_pos rfl]
    exact h
  | true =>
    rcases pciIntxDeassert_spec h hon with ⟨hrest, hwire, hlink, hpos, hgsi⟩
    have hroute : (s.pciIntxDeassert w).route = s.route := congrArg (·.2.1) hrest
    refine .of_eq (fun l => ?_) fun g => ?_
    · have hoff := tally_off hon linkOf l
      have hold := (h.link l).1
      rw [hlink, hwire, Function.update_apply]
      by_cases hl : l = linkOf w
      · rw [if_pos hl.symm] at hoff
        rw [if_pos hl, ← hl]
        omega
      · rw [if_neg fun he => hl he.symm] at hoff
        rw [if_neg hl]
        omega
    · have hsources := sources_wire (l := linkOf w) hrest (fun j hj => by rw [hlink, Function.update_of_ne hj]) g
      have hoff := tally_off hon gsiOf g
      have hlinkOn : (s.pciIntxDeassert w).linkOn (linkOf w) =
          (decide (s.linkCount (linkOf w) ≠ 1) && decide (s.route (linkOf w) ≠ 0)) := by
        have hne : (s.linkCount (linkOf w) - 1 ≠ 0) ↔ s.linkCount (linkOf w) ≠ 1 := by omega
        unfold linkOn
        rw [hlink, hroute, Function.update_self, decide_eq_decide.2 hne]
      have hcount := (h.gsi g).1
      have hnew := hgsi g
      have hne0 : s.linkCount (linkOf w) ≠ 0 := Nat.ne_of_gt hpos
      rw [hwire, hlinkOn, weight_eq, weight_eq] at hsources
      unfold linkOn at hsources
      by_cases hz : s.linkCount (linkOf w) = 1
      · by_cases hr : s.route (linkOf w) = 0
        · simp [hz, hr] at hsources hnew
          omega
        · simp [hz, hr] at hsources hnew
          omega
      · by_cases hr : s.route (linkOf w) = 0
        · simp [hz, hr] at hsources hnew
          omega
        · simp [hz, hr, hne0] at hsources hnew
          omega

theorem sources_isa (s s' : State) (hsame : (s'.pciIntx, s'.linkCount, s'.route, s'.asserted, s'.via) =
    (s.pciIntx, s.linkCount, s.route, s.asserted, s.via)) (g : Nat) :
    s'.sources g + tally s.isaIrq isaGsi g = s.sources g + tally s'.isaIrq isaGsi g := by
  simp only [Prod.mk.injEq] at hsame
  rcases hsame with ⟨hpci, hcount, hroute, hasserted, hvia⟩
  have hon : s'.linkOn = s.linkOn := by
    funext l
    unfold linkOn
    rw [hcount, hroute]
  unfold sources links callback
  rw [hpci, hon, hroute, hasserted, hvia]
  omega

theorem Counted.isaIrqAssert (h : s.Counted) (i : Fin 16) : (s.isaIrqAssert i).Counted := by
  unfold State.isaIrqAssert
  cases hoff : s.isaIrq i with
  | true => exact h
  | false =>
    rw [if_neg Bool.false_ne_true]
    refine .of_eq (fun l => (h.link l).1) fun g => ?_
    have hsources := sources_isa s (s.setIsa i true) rfl g
    have hon : tally (s.setIsa i true).isaIrq isaGsi g = tally s.isaIrq isaGsi g + if isaGsi i = g then 1 else 0 :=
      tally_on hoff isaGsi g
    have hraise : ∀ edges, ((s.setIsa i true).raise (isaGsi i) edges).gsiCount g =
        s.gsiCount g + if isaGsi i = g then 1 else 0 :=
      fun edges => raise_gsiCount (Nat.lt_trans (h.lt (isaGsi i)) (by decide)) edges g
    refine (hraise _).trans ?_
    show _ = (s.setIsa i true).sources g
    rw [(h.gsi g).1]
    omega

theorem Counted.isaIrqDeassert (h : s.Counted) (i : Fin 16) : (s.isaIrqDeassert i).Counted := by
  unfold State.isaIrqDeassert
  cases hon : s.isaIrq i with
  | false => exact h
  | true =>
    rw [Bool.not_true, if_neg Bool.false_ne_true]
    refine .of_eq (fun l => (h.link l).1) fun g => ?_
    have hsources := sources_isa s (s.setIsa i false) rfl g
    have hoff : tally (s.setIsa i false).isaIrq isaGsi g + (if isaGsi i = g then 1 else 0) = tally s.isaIrq isaGsi g :=
      tally_off hon isaGsi g
    have hpos : 0 < s.gsiCount (isaGsi i) := h.isa_pos hon
    have hlower : ∀ edges, ((s.setIsa i false).lower (isaGsi i) edges).gsiCount g + (if isaGsi i = g then 1 else 0) =
        s.gsiCount g := fun edges => lower_gsiCount hpos (Nat.lt_trans (h.lt (isaGsi i)) (by decide)) edges g
    have hlow := hlower ((s.setIsa i false).deassertIrq i)
    have hcount := (h.gsi g).1
    show ((s.setIsa i false).lower (isaGsi i) _).gsiCount g = (s.setIsa i false).sources g
    omega

/-! ## The callback -/

theorem sources_callback (s s' : State) (hsame : (s'.pciIntx, s'.isaIrq, s'.linkCount, s'.route) =
    (s.pciIntx, s.isaIrq, s.linkCount, s.route)) (g : Nat) :
    s'.sources g + s.callback g = s.sources g + s'.callback g := by
  simp only [Prod.mk.injEq] at hsame
  rcases hsame with ⟨hpci, hisa, hcount, hroute⟩
  have hon : s'.linkOn = s.linkOn := by
    funext l
    unfold linkOn
    rw [hcount, hroute]
  unfold sources links
  rw [hpci, hisa, hon, hroute]
  omega

theorem callback_off (h : s.asserted = false) (g : Nat) : s.callback g = 0 := by
  unfold callback
  rw [h, if_neg fun hc => Bool.false_ne_true hc.1]

theorem callback_of_ne (h : ∀ g, s.via ≠ .gsi g) (g : Nat) : s.callback g = 0 := by
  unfold callback
  rw [if_neg fun hc => h g hc.2]

theorem Counted.of_callback {s' : State} (h : s.Counted) (hsame : (s'.pciIntx, s'.isaIrq, s'.linkCount, s'.route) =
    (s.pciIntx, s.isaIrq, s.linkCount, s.route)) (hgsi : s'.gsiCount = s.gsiCount)
    (hcb : ∀ g, s'.callback g = s.callback g) : s'.Counted := by
  have hsame' := hsame
  simp only [Prod.mk.injEq] at hsame'
  refine .of_eq (fun l => ?_) fun g => ?_
  · rw [hsame'.2.2.1, hsame'.1]
    exact (h.link l).1
  · have hsources := sources_callback s s' hsame g
    rw [hcb g] at hsources
    rw [hgsi, (h.gsi g).1]
    omega

/-- A callback at a wire asserts no GSI of its own. -/
theorem Counted.setAsserted (h : s.Counted) {w : Fin 128} (hvia : s.via = .pciIntx w) (level : Bool) :
    (s.setAsserted level).Counted := by
  have hnone : ∀ g, s.via ≠ .gsi g := by
    intro g hg
    rw [hvia] at hg
    exact Via.noConfusion hg
  refine h.of_callback rfl rfl fun g => ?_
  rw [callback_of_ne hnone, callback_of_ne (s := s.setAsserted level) hnone]

theorem Counted.driveVia (h : s.Counted) {level : Bool} (hne : s.asserted = !level) :
    ((s.setAsserted level).driveVia level).Counted := by
  unfold State.driveVia
  split
  · rename_i gsi hvia
    have hvia' : s.via = .gsi gsi := hvia
    cases level with
    | true =>
      rw [if_pos rfl]
      refine .of_eq (fun l => (h.link l).1) fun g => ?_
      have hraise := raise_gsiCount (s := s.setAsserted true) (Nat.lt_trans (h.lt gsi) (by decide)) (viaHigh gsi) g
      have hsources := sources_callback s (s.setAsserted true) rfl g
      have hcb : (s.setAsserted true).callback g = if gsi = g then 1 else 0 := by
        unfold callback State.setAsserted
        rw [hvia']
        simp
      rw [callback_off hne, hcb] at hsources
      refine hraise.trans ?_
      show s.gsiCount g + _ = (s.setAsserted true).sources g
      rw [(h.gsi g).1]
      omega
    | false =>
      rw [if_neg Bool.false_ne_true]
      refine .of_eq (fun l => (h.link l).1) fun g => ?_
      have hcb : ∀ g, s.callback g = if gsi = g then 1 else 0 := by
        intro g
        unfold callback
        rw [hvia', hne]
        simp
      have hpos : 0 < s.gsiCount gsi := h.callback_pos hvia' hne
      have hlower := lower_gsiCount (s := s.setAsserted false) hpos (Nat.lt_trans (h.lt gsi) (by decide)) (viaLow gsi) g
      have hsources := sources_callback s (s.setAsserted false) rfl g
      have hcount := (h.gsi g).1
      rw [hcb, callback_off rfl] at hsources
      show ((s.setAsserted false).lower gsi (viaLow gsi)).gsiCount g = (s.setAsserted false).sources g
      have hsame : (s.setAsserted false).gsiCount g = s.gsiCount g := rfl
      omega
  · rename_i w hvia
    have hcounted : (s.setAsserted level).Counted := h.setAsserted hvia level
    cases level with
    | true => exact hcounted.pciIntxAssert w
    | false => exact hcounted.pciIntxDeassert w
  · rename_i hgsi hpci
    have hnone : ∀ g, s.via ≠ .gsi g := fun g hg => hgsi g hg
    refine h.of_callback rfl rfl fun g => ?_
    rw [callback_of_ne hnone, callback_of_ne (s := s.setAsserted level) hnone]

theorem Counted.setCallbackIrqLevel (h : s.Counted) (asserted : Bool) : (s.setCallbackIrqLevel asserted).Counted := by
  unfold State.setCallbackIrqLevel
  split
  · exact h
  · rename_i hne
    exact h.driveVia (Bool.eq_not.2 hne)

/-! Whether the callback is asserted is not looked at when it is driven. -/

theorem raise_setAsserted (s : State) (g : Nat) (edges : List Edge) (a : Bool) :
    (s.setAsserted a).raise g edges = (s.raise g edges).setAsserted a := by
  exact setCount_setAsserted s g _ _ edges a

theorem lower_setAsserted (s : State) (g : Nat) (edges : List Edge) (a : Bool) :
    (s.setAsserted a).lower g edges = (s.lower g edges).setAsserted a := by
  exact setCount_setAsserted s g _ _ edges a

theorem pciIntxAssert_setAsserted (s : State) (w : Fin 128) (a : Bool) :
    (s.setAsserted a).pciIntxAssert w = (s.pciIntxAssert w).setAsserted a := by
  have hwire : (s.setAsserted a).setWire w true = (s.setWire w true).setAsserted a := rfl
  have hedges : ((s.setWire w true).setAsserted a).assertGsi (gsiOf w) = (s.setWire w true).assertGsi (gsiOf w) := rfl
  unfold State.pciIntxAssert
  dsimp only
  rw [show (s.setAsserted a).pciIntx w = s.pciIntx w from rfl, hwire, hedges, raise_setAsserted]
  generalize (s.setWire w true).raise (gsiOf w) ((s.setWire w true).assertGsi (gsiOf w)) = t
  split
  · rfl
  · have hlink : (t.setAsserted a).setLink (linkOf w) (inc8 (t.linkCount (linkOf w))) =
        (t.setLink (linkOf w) (inc8 (t.linkCount (linkOf w)))).setAsserted a := rfl
    show (if decide (t.linkCount (linkOf w) = 0) = true ∧ t.route (linkOf w) ≠ 0 then
      ((t.setAsserted a).setLink (linkOf w) (inc8 (t.linkCount (linkOf w)))).raise (t.route (linkOf w)) _
      else (t.setAsserted a).setLink (linkOf w) (inc8 (t.linkCount (linkOf w)))) = _
    rw [hlink, raise_setAsserted, ← apply_ite (setAsserted · a)]
    rfl

theorem pciIntxDeassert_setAsserted (s : State) (w : Fin 128) (a : Bool) :
    (s.setAsserted a).pciIntxDeassert w = (s.pciIntxDeassert w).setAsserted a := by
  have hwire : (s.setAsserted a).setWire w false = (s.setWire w false).setAsserted a := rfl
  unfold State.pciIntxDeassert
  dsimp only
  rw [show (s.setAsserted a).pciIntx w = s.pciIntx w from rfl, hwire, lower_setAsserted]
  generalize (s.setWire w false).lower (gsiOf w) [] = t
  split
  · rfl
  · have hlink : (t.setAsserted a).setLink (linkOf w) (dec8 (t.linkCount (linkOf w))) =
        (t.setLink (linkOf w) (dec8 (t.linkCount (linkOf w)))).setAsserted a := rfl
    show (if ((t.setAsserted a).setLink (linkOf w) (dec8 (t.linkCount (linkOf w)))).linkCount (linkOf w) = 0 ∧
        t.route (linkOf w) ≠ 0 then
      ((t.setAsserted a).setLink (linkOf w) (dec8 (t.linkCount (linkOf w)))).lower (t.route (linkOf w)) _
      else (t.setAsserted a).setLink (linkOf w) (dec8 (t.linkCount (linkOf w)))) = _
    rw [hlink, lower_setAsserted, ← apply_ite (setAsserted · a)]
    rfl

theorem driveVia_setAsserted (s : State) (level a : Bool) :
    (s.setAsserted a).driveVia level = (s.driveVia level).setAsserted a := by
  unfold State.driveVia
  have hvia : (s.setAsserted a).via = s.via := rfl
  rw [hvia]
  split
  · split
    · exact raise_setAsserted ..
    · exact lower_setAsserted ..
  · split
    · exact pciIntxAssert_setAsserted ..
    · exact pciIntxDeassert_setAsserted ..
  · rfl

/-- A new callback is set as if the old one were not asserted and the new one is asserted then. -/
theorem setCallbackVia_eq (ha : s.asserted = true) (via : BitVec 64) : s.setCallbackVia via =
    ((s.setCallbackIrqLevel false).setVia (decodeVia via)).setCallbackIrqLevel true := by
  have hself : s = s.setAsserted true := by
    unfold setAsserted
    rw [← ha]
  have hon : (s.driveVia false).asserted = true := by
    rw [hself, driveVia_setAsserted]
    rfl
  have hlow : s.setCallbackIrqLevel false = (s.driveVia false).setAsserted false := by
    unfold State.setCallbackIrqLevel
    rw [ha, if_neg (by decide), driveVia_setAsserted]
  unfold State.setCallbackVia
  dsimp only
  rw [ha, if_pos rfl, hlow]
  generalize s.driveVia false = t at hon ⊢
  have heq : ((t.setAsserted false).setVia (decodeVia via)).setAsserted true = t.setVia (decodeVia via) := by
    unfold setAsserted setVia
    rw [← hon]
  have hout : (t.setVia (decodeVia via)).asserted = true := hon
  have hoff : ((t.setAsserted false).setVia (decodeVia via)).asserted = false := rfl
  unfold State.setCallbackIrqLevel
  rw [hout, if_pos rfl, hoff, if_neg (by decide), heq]

theorem Counted.setVia (h : s.Counted) (ha : s.asserted = false) (via : Via) : (s.setVia via).Counted := by
  refine h.of_callback rfl rfl fun g => ?_
  have hout : (s.setVia via).asserted = false := ha
  rw [callback_off ha, callback_off hout]

theorem setCallbackIrqLevel_asserted (s : State) (a : Bool) : (s.setCallbackIrqLevel a).asserted = a := by
  unfold State.setCallbackIrqLevel
  split
  · assumption
  · rw [driveVia_setAsserted]
    rfl

theorem Counted.setCallbackVia (h : s.Counted) (via : BitVec 64) : (s.setCallbackVia via).Counted := by
  cases ha : s.asserted with
  | false =>
    have hout : (s.setVia (decodeVia via)).asserted = false := ha
    unfold State.setCallbackVia
    dsimp only
    rw [ha, if_neg Bool.false_ne_true, hout, if_neg Bool.false_ne_true]
    exact h.setVia ha _
  | true =>
    rw [setCallbackVia_eq ha]
    have hlow := h.setCallbackIrqLevel false
    exact (hlow.setVia (s.setCallbackIrqLevel_asserted false) _).setCallbackIrqLevel true

/-! ## The routes -/

theorem Counted.setPciLinkRoute (h : s.Counted) (link : Fin 4) (isaIrq : Fin 16) :
    (s.setPciLinkRoute link isaIrq).Counted := by
  unfold State.setPciLinkRoute
  dsimp only
  split
  · exact h
  · rename_i hne
    -- how the sources change, before the counts follow
    generalize ht : s.setRoute link isaIrq.val = t
    have hwires : (t.pciIntx, t.isaIrq, t.linkCount, t.gsiCount) = (s.pciIntx, s.isaIrq, s.linkCount, s.gsiCount) := by
      rw [← ht]
      rfl
    have hcb : ∀ g, t.callback g = s.callback g := by
      intro g
      rw [← ht]
      rfl
    have hroute : t.route link = isaIrq.val := by
      rw [← ht]
      exact Function.update_self ..
    simp only [Prod.mk.injEq] at hwires
    rcases hwires with ⟨hpci, hisa, hcount, hgsi⟩
    have hlinks : ∀ g, t.links g + weight (s.linkOn link) (s.route link) g =
        s.links g + weight (t.linkOn link) (t.route link) g := by
      refine links_change s t link (fun j _ => by rw [hcount]) fun j hj => ?_
      rw [← ht]
      exact Function.update_of_ne hj ..
    have hsources : ∀ g, t.sources g + weight (s.linkOn link) (s.route link) g =
        s.sources g + weight (t.linkOn link) isaIrq.val g := by
      intro g
      have hl := hlinks g
      rw [hroute] at hl
      unfold sources
      rw [hpci, hisa, hcb]
      omega
    have hlink : ∀ l, t.linkCount l = tally t.pciIntx linkOf l := by
      intro l
      rw [hcount, hpci]
      exact (h.link l).1
    have hlt : ∀ g, t.gsiCount g < 150 := by
      intro g
      rw [hgsi]
      exact h.lt g
    split
    · rename_i hzero
      refine .of_eq hlink fun g => ?_
      have hsrc := hsources g
      have h1 : s.linkOn link = false := by
        unfold linkOn
        rw [← hcount, hzero]
        rfl
      have h2 : t.linkOn link = false := by
        unfold linkOn
        rw [hzero]
        rfl
      rw [h1, h2, weight_off, weight_off] at hsrc
      rw [hgsi, (h.gsi g).1]
      omega
    · rename_i hpos
      have h1 : s.linkOn link = decide (s.route link ≠ 0) := by
        unfold linkOn
        rw [← hcount, decide_eq_true hpos, Bool.true_and]
      have h2 : t.linkOn link = decide (isaIrq.val ≠ 0) := by
        unfold linkOn
        rw [decide_eq_true hpos, Bool.true_and, hroute]
      -- the old route
      have hold : ∀ g, (if s.route link ≠ 0 then t.lower (s.route link) [.low (s.route link)] else t).gsiCount g +
          weight (s.linkOn link) (s.route link) g = s.gsiCount g := by
        intro g
        rw [h1, weight_eq, ← hgsi]
        by_cases h0 : s.route link = 0
        · simp [h0]
        · rw [if_pos h0, decide_eq_true h0, if_pos rfl]
          refine lower_gsiCount ?_ (Nat.lt_trans (hlt _) (by decide)) _ g
          rw [hgsi]
          exact h.link_pos (by rw [h1, decide_eq_true h0])
      generalize hu : (if s.route link ≠ 0 then t.lower (s.route link) [.low (s.route link)] else t) = u at hold ⊢
      have hsame : ∀ g, u.sources g = t.sources g := by
        intro g
        rw [← hu]
        split <;> rfl
      have hulink : ∀ l, u.linkCount l = tally u.pciIntx linkOf l := by
        intro l
        rw [← hu]
        split
        · exact hlink l
        · exact hlink l
      have hw : ∀ g, weight (t.linkOn link) isaIrq.val g = if isaIrq.val ≠ 0 then (if isaIrq.val = g then 1 else 0) else 0 := by
        intro g
        rw [h2, weight_eq]
        by_cases h0 : isaIrq.val = 0
        · simp [h0]
        · simp [h0]
      split
      · rename_i hnew
        refine .of_eq hulink fun g => ?_
        have hult : u.gsiCount isaIrq < 255 := by
          have := hold isaIrq
          have := h.lt isaIrq
          omega
        have hraise := raise_gsiCount hult [.ioapic isaIrq, .high isaIrq] g
        have hsrc := hsources g
        have ho := hold g
        have hc := (h.gsi g).1
        rw [hw, if_pos hnew] at hsrc
        show (u.raise isaIrq _).gsiCount g = u.sources g
        rw [hsame]
        omega
      · rename_i hnew
        refine .of_eq hulink fun g => ?_
        have hsrc := hsources g
        have ho := hold g
        have hc := (h.gsi g).1
        rw [hw, if_neg hnew] at hsrc
        rw [hsame]
        omega

/-! ## The load -/

/-- A count that goes up for each source of a list. -/
theorem recount_list {n : Nat} {κ : Type} [DecidableEq κ] (on : Fin n → Bool) (f : Fin n → κ) (k : κ)
    (is : List (Fin n)) (c : κ → Nat) (h : c k + (is.map fun i => weight (on i) (f i) k).sum < 256) :
    is.foldl (fun c i => if on i then Function.update c (f i) (inc8 (c (f i))) else c) c k =
      c k + (is.map fun i => weight (on i) (f i) k).sum := by
  induction is generalizing c with
  | nil => rfl
  | cons i rest ih =>
    rw [List.map_cons, List.sum_cons] at h ⊢
    have hone : (if on i then Function.update c (f i) (inc8 (c (f i))) else c) k = c k + weight (on i) (f i) k := by
      cases hon : on i with
      | false => rfl
      | true =>
        rw [hon, weight_on] at h
        rw [if_pos rfl, weight_on, Function.update_apply]
        by_cases hk : k = f i
        · rw [if_pos hk.symm] at h
          rw [if_pos hk, if_pos hk.symm, hk]
          exact inc8_eq (by rw [← hk]; omega)
        · rw [if_neg hk, if_neg fun he => hk he.symm, Nat.add_zero]
    rw [List.foldl_cons, ih _ (by rw [hone]; omega), hone]
    omega

theorem recount_apply {n : Nat} {κ : Type} [DecidableEq κ] (on : Fin n → Bool) (f : Fin n → κ) (c : κ → Nat) (k : κ)
    (h : c k + tally on f k < 256) : recount on f c k = c k + tally on f k := by
  rw [tally_fin] at h ⊢
  exact recount_list on f k _ c h

theorem load_counted (s : State) (pciIntx : Fin 128 → Bool) (isaIrq : Fin 16 → Bool) {route : Fin 4 → Nat}
    (hasserted : s.asserted = false) (hroute : ∀ link, route link ≤ 15) :
    (((s.loadPci pciIntx).loadIsa isaIrq).loadLink route).Counted := by
  have hwires : ∀ g, tally pciIntx gsiOf g ≤ 128 := fun g => tally_le_card ..
  have hisas : ∀ g, tally isaIrq isaGsi g ≤ 16 := fun g => tally_le_card ..
  have hlink : ∀ l, recount pciIntx linkOf (fun _ => 0) l = tally pciIntx linkOf l := by
    intro l
    have hle : tally pciIntx linkOf l ≤ 128 := tally_le_card ..
    rw [recount_apply _ _ _ _ (by omega), Nat.zero_add]
  have hpci : ∀ g, recount pciIntx gsiOf (fun _ => 0) g = tally pciIntx gsiOf g := by
    intro g
    have hle := hwires g
    rw [recount_apply _ _ _ _ (by omega), Nat.zero_add]
  have hisa : ∀ g, recount isaIrq isaGsi (recount pciIntx gsiOf fun _ => 0) g =
      tally pciIntx gsiOf g + tally isaIrq isaGsi g := by
    intro g
    have hle := hwires g
    have hle' := hisas g
    rw [recount_apply _ _ _ _ (by rw [hpci]; omega), hpci]
  have hrange : ¬∃ link, 15 < route link := by
    intro ⟨link, hlt⟩
    have := hroute link
    omega
  unfold loadLink
  rw [if_neg hrange]
  refine .of_eq hlink fun g => ?_
  unfold sources
  rw [callback_off, Nat.add_zero]
  · refine (recount_apply _ _ _ _ ?_).trans (congrArg (· + _) (hisa g))
    refine Nat.lt_of_le_of_lt (Nat.add_le_add (Nat.le_of_eq (hisa g)) (tally_le_card ..)) ?_
    have hle := hwires g
    have hle' := hisas g
    rw [Fintype.card_fin]
    omega
  · exact hasserted

end State

theorem act_counted {step : Step} {s : State} (hadm : Admitted step s) (hrange : step.inRange) (h : s.Counted) :
    (act step s).Counted := by
  cases step with
  | pciIntxAssert w => exact h.pciIntxAssert w
  | pciIntxDeassert w => exact h.pciIntxDeassert w
  | isaIrqAssert i => exact h.isaIrqAssert i
  | isaIrqDeassert i => exact h.isaIrqDeassert i
  | setPciLinkRoute link isaIrq => exact h.setPciLinkRoute link isaIrq
  | setCallbackVia via => exact h.setCallbackVia via
  | setCallbackIrqLevel asserted => exact h.setCallbackIrqLevel asserted
  | load pciIntx isaIrq route => exact s.load_counted pciIntx isaIrq hadm hrange

theorem init_counted (usePirq : Nat → Bool) : (init usePirq).Counted := by
  refine .of_eq (fun l => ?_) fun g => ?_
  · exact (tally_none (fun _ => rfl) _ l).symm
  · have hpci : tally (init usePirq).pciIntx gsiOf g = 0 := tally_none (fun _ => rfl) _ g
    have hisa : tally (init usePirq).isaIrq isaGsi g = 0 := tally_none (fun _ => rfl) _ g
    have hlinks : (init usePirq).links g = 0 := tally_none (fun _ => rfl) _ g
    unfold State.sources
    rw [hpci, hisa, hlinks, State.callback_off rfl]
    rfl

/-! ## The inputs of the 8259s -/

namespace State

variable {s : State}

/-- The edges drive the input of their GSI, if it is one of the sixteen, and no other. -/
def Drives (edges : List Edge) (g : Nat) (level : Bool) : Prop :=
  ∀ pic i, i ≤ 15 → edges.foldl Edge.drive pic i = if i = g then level else pic i

theorem assertGsi_drive (s : State) (g : Nat) (pic : Nat → Bool) : (s.assertGsi g).foldl Edge.drive pic = pic := by
  unfold assertGsi
  split <;> rfl

theorem assertIrq_drive (s : State) (g i : Nat) (pic : Nat → Bool) :
    (s.assertIrq g i).foldl Edge.drive pic = Function.update pic i true := by
  unfold assertIrq
  rw [List.foldl_append, assertGsi_drive]
  rfl

theorem deassertIrq_drive {i : Nat} (h : s.usePirq i = false) (pic : Nat → Bool) :
    (s.deassertIrq i).foldl Edge.drive pic = Function.update pic i false := by
  unfold deassertIrq
  rw [h]
  rfl

theorem drives_of_update {edges : List Edge} {g : Nat} {level : Bool}
    (h : ∀ pic, edges.foldl Edge.drive pic = Function.update pic g level) : Drives edges g level := by
  intro pic i _
  rw [h, Function.update_apply]

/-- Edges that drive nothing, for a GSI above the inputs. -/
theorem drives_of_same {edges : List Edge} {g : Nat} (level : Bool) (hg : 15 < g)
    (h : ∀ pic, edges.foldl Edge.drive pic = pic) : Drives edges g level := by
  intro pic i hi
  rw [h, if_neg (by omega)]

theorem viaHigh_drives (g : Nat) : Drives (viaHigh g) g true := by
  unfold viaHigh
  split
  · exact drives_of_update fun _ => rfl
  · rename_i hg
    exact drives_of_same true (Nat.lt_of_not_le hg) fun _ => rfl

theorem viaLow_drives (g : Nat) : Drives (viaLow g) g false := by
  unfold viaLow
  split
  · exact drives_of_update fun _ => rfl
  · rename_i hg
    exact drives_of_same false (Nat.lt_of_not_le hg) fun _ => rfl

/-- A count gets a new value, and its input follows: it is driven to where the count is now, or it
was there already. -/
theorem Driven.setCount (h : s.Driven) {g n : Nat} {fires level : Bool} {edges : List Edge} (hg : g ≠ 0)
    (hedges : Drives edges g level) (hfires : fires = true → level = decide (n ≠ 0))
    (hnot : fires = false → (n ≠ 0 ↔ s.gsiCount g ≠ 0)) : (s.setCount g n fires edges).Driven := by
  have hother : ∀ i, i ≤ 15 → i ≠ g → (s.setCount g n fires edges).pic i = s.pic i := by
    intro i hi hne
    cases fires with
    | false => rfl
    | true => exact (hedges s.pic i hi).trans (if_neg hne)
  constructor
  · exact (hother 0 (by decide) hg.symm).trans h.timer
  · intro i h1 h15 h2
    have hi := h.input i h1 h15 h2
    rw [setCount_gsiCount]
    by_cases hig : i = g
    · rw [if_pos hig]
      cases fires with
      | false =>
        have hsame := hnot rfl
        rw [← hig] at hsame
        exact hi.trans (decide_eq_decide.2 hsame.symm)
      | true =>
        have hdriven := (hedges s.pic i h15).trans (if_pos hig)
        exact hdriven.trans (hfires rfl)
    · rw [if_neg hig, hother i h15 hig, hi]

theorem Driven.raise (h : s.Driven) {g : Nat} {edges : List Edge} (hg : g ≠ 0) (hlt : s.gsiCount g < 255)
    (hedges : Drives edges g true) : (s.raise g edges).Driven := by
  unfold State.raise
  rw [inc8_eq hlt]
  refine h.setCount hg hedges (fun _ => ?_) fun hnot => ?_
  · exact (decide_eq_true (Nat.succ_ne_zero _)).symm
  · have hne := of_decide_eq_false hnot
    constructor
    · exact fun _ => hne
    · exact fun _ => Nat.succ_ne_zero _

theorem Driven.lower (h : s.Driven) {g : Nat} {edges : List Edge} (hg : g ≠ 0) (hpos : 0 < s.gsiCount g)
    (hlt : s.gsiCount g < 256) (hedges : Drives edges g false) : (s.lower g edges).Driven := by
  unfold State.lower
  rw [dec8_eq hpos hlt]
  refine h.setCount hg hedges (fun hfires => ?_) fun hnot => ?_
  · exact (decide_eq_false fun hne => hne (of_decide_eq_true hfires)).symm
  · have hne := of_decide_eq_false hnot
    constructor
    · exact fun _ => Nat.ne_of_gt hpos
    · exact fun _ => hne

/-- The domain uses no pirqs, and the callback is at a GSI that is there. -/
structure Wired (s : State) : Prop where
  noPirq : ∀ g, s.usePirq g = false
  via : s.via ≠ .gsi 0

/-- What the operations on wires and routes leave alone. -/
def config (s : State) : (Nat → Bool) × Via := (s.usePirq, s.via)

theorem Wired.of_config {s' : State} (h : s.Wired) (hconfig : s'.config = s.config) : s'.Wired := by
  simp only [config, Prod.mk.injEq] at hconfig
  constructor
  · rw [hconfig.1]
    exact h.noPirq
  · rw [hconfig.2]
    exact h.via

theorem pciIntxAssert_config (s : State) (w : Fin 128) : (s.pciIntxAssert w).config = s.config := by
  unfold State.pciIntxAssert
  split
  · rfl
  · dsimp only
    split <;> rfl

theorem pciIntxDeassert_config (s : State) (w : Fin 128) : (s.pciIntxDeassert w).config = s.config := by
  unfold State.pciIntxDeassert
  split
  · rfl
  · dsimp only
    split <;> rfl

theorem isaIrqAssert_config (s : State) (i : Fin 16) : (s.isaIrqAssert i).config = s.config := by
  unfold State.isaIrqAssert
  split <;> rfl

theorem isaIrqDeassert_config (s : State) (i : Fin 16) : (s.isaIrqDeassert i).config = s.config := by
  unfold State.isaIrqDeassert
  split <;> rfl

theorem setPciLinkRoute_config (s : State) (link : Fin 4) (isaIrq : Fin 16) :
    (s.setPciLinkRoute link isaIrq).config = s.config := by
  unfold State.setPciLinkRoute
  dsimp only
  split
  · rfl
  · split
    · rfl
    · split <;> split <;> rfl

theorem driveVia_config (s : State) (level : Bool) : (s.driveVia level).config = s.config := by
  unfold State.driveVia
  split
  · split <;> rfl
  · split
    · exact pciIntxAssert_config ..
    · exact pciIntxDeassert_config ..
  · rfl

theorem setCallbackIrqLevel_config (s : State) (a : Bool) : (s.setCallbackIrqLevel a).config = s.config := by
  unfold State.setCallbackIrqLevel
  split
  · rfl
  · exact driveVia_config ..

theorem decodeVia_ne (via : BitVec 64) : decodeVia via ≠ .gsi 0 := by
  intro h
  unfold decodeVia at h
  split at h
  · dsimp only at h
    split at h
    · exact Via.noConfusion h
    · rename_i hnot
      exact hnot (.inr (.inl (Via.gsi.inj h)))
  · exact Via.noConfusion h
  · exact Via.noConfusion h
  · exact Via.noConfusion h

theorem Wired.setVia (h : s.Wired) (via : BitVec 64) : (s.setVia (decodeVia via)).Wired :=
  ⟨h.noPirq, decodeVia_ne via⟩

theorem Wired.setCallbackVia (h : s.Wired) (via : BitVec 64) : (s.setCallbackVia via).Wired := by
  have hlow : (if s.asserted then s.driveVia false else s).Wired := by
    split
    · exact h.of_config (driveVia_config ..)
    · exact h
  unfold State.setCallbackVia
  dsimp only
  generalize (if s.asserted then s.driveVia false else s) = t at hlow ⊢
  split
  · exact (hlow.setVia via).of_config (driveVia_config ..)
  · exact hlow.setVia via

theorem gsiOf_gt (w : Fin 128) : 15 < gsiOf w := by
  unfold gsiOf
  omega

/-- The counts move one at a time, each with its edges. -/
inductive Moves (s : State) : State → Prop
  | refl : Moves s s
  | set {t u : State} (h : Moves s t)
      (hsame : (u.gsiCount, u.pic, u.raised, u.isaIrq 0) = (t.gsiCount, t.pic, t.raised, t.isaIrq 0)) : Moves s u
  | raise {t : State} {g : Nat} {edges : List Edge} (h : Moves s t) (hg : g ≠ 0) (hlt : t.gsiCount g < 255)
      (hedges : Drives edges g true) (hpin : g ∈ edges.filterMap Edge.pin) : Moves s (t.raise g edges)
  | lower {t : State} {g : Nat} {edges : List Edge} (h : Moves s t) (hg : g ≠ 0) (hpos : 0 < t.gsiCount g)
      (hlt : t.gsiCount g < 256) (hedges : Drives edges g false) : Moves s (t.lower g edges)

theorem Moves.setLink {t : State} (h : Moves s t) (link : Fin 4) (n : Nat) : Moves s (t.setLink link n) := h.set rfl

theorem Moves.trans {t u : State} (h : Moves s t) (h' : Moves t u) : Moves s u := by
  induction h' with
  | refl => exact h
  | set _ hsame ih => exact ih.set hsame
  | raise _ hg hlt hedges hpin ih => exact ih.raise hg hlt hedges hpin
  | lower _ hg hpos hlt hedges ih => exact ih.lower hg hpos hlt hedges

/-- The inputs follow the counts. -/
theorem Moves.driven {t : State} (h : Moves s t) (hs : s.Driven) : t.Driven := by
  induction h with
  | refl => exact hs
  | set _ hsame ih =>
    simp only [Prod.mk.injEq] at hsame
    constructor
    · rw [hsame.2.1, hsame.2.2.2]
      exact ih.timer
    · rw [hsame.2.1, hsame.1]
      exact ih.input
  | raise _ hg hlt hedges _ ih => exact ih.raise hg hlt hedges
  | lower _ hg hpos hlt hedges ih => exact ih.lower hg hpos hlt hedges

theorem assertGsi_pin {g : Nat} (h : s.usePirq g = false) : g ∈ (s.assertGsi g).filterMap Edge.pin := by
  unfold assertGsi
  rw [h]
  exact List.mem_singleton_self g

theorem assertIrq_pin {g : Nat} (h : s.usePirq g = false) (i : Nat) : g ∈ (s.assertIrq g i).filterMap Edge.pin := by
  unfold assertIrq
  rw [List.filterMap_append]
  exact List.mem_append_left _ (assertGsi_pin h)

theorem moves_pciIntxAssert (hc : s.Counted) (hw : s.Wired) (w : Fin 128) : Moves s (s.pciIntxAssert w) := by
  have hgsi := gsiOf_gt w
  unfold State.pciIntxAssert
  split
  · exact .refl
  · dsimp only
    have hwire : Moves s (s.setWire w true) := Moves.refl.set rfl
    have hlt : (s.setWire w true).gsiCount (gsiOf w) < 255 := Nat.lt_trans (hc.lt (gsiOf w)) (by decide)
    have hfirst := hwire.raise (Nat.ne_of_gt (Nat.zero_lt_of_lt hgsi)) hlt
      (drives_of_same true hgsi ((s.setWire w true).assertGsi_drive (gsiOf w))) (assertGsi_pin (hw.noPirq _))
    split
    · rename_i hlink
      refine Moves.raise (hfirst.setLink _ _) hlink.2 ?_ (drives_of_update (assertIrq_drive _ _ _))
        (assertIrq_pin (hw.noPirq _) _)
      have hcount := raise_gsiCount hlt ((s.setWire w true).assertGsi (gsiOf w)) (s.route (linkOf w))
      have hroute : (s.setWire w true).gsiCount (s.route (linkOf w)) < 150 := hc.lt (s.route (linkOf w))
      refine hcount.trans_lt ?_
      split <;> omega
    · exact hfirst.setLink _ _

theorem moves_pciIntxDeassert (hc : s.Counted) (hw : s.Wired) (w : Fin 128) : Moves s (s.pciIntxDeassert w) := by
  have hgsi := gsiOf_gt w
  cases hon : s.pciIntx w with
  | false =>
    unfold State.pciIntxDeassert
    rw [hon, Bool.not_false, if_pos rfl]
    exact .refl
  | true =>
    rcases pciIntxDeassert_spec hc hon with ⟨-, -, -, hpos, -⟩
    have hwire : Moves s (s.setWire w false) := Moves.refl.set rfl
    have hdirect : 0 < (s.setWire w false).gsiCount (gsiOf w) := hc.wire_pos hon
    have hlt : (s.setWire w false).gsiCount (gsiOf w) < 256 := Nat.lt_trans (hc.lt (gsiOf w)) (by decide)
    have hfirst := hwire.lower (Nat.ne_of_gt (Nat.zero_lt_of_lt hgsi)) hdirect hlt
      (drives_of_same false hgsi fun _ => (rfl : [].foldl Edge.drive _ = _))
    unfold State.pciIntxDeassert
    rw [hon, Bool.not_true, if_neg Bool.false_ne_true]
    dsimp only
    split
    · rename_i hlink
      have hboth := hc.both_pos hon (linkOn_iff.2 ⟨Nat.ne_of_gt hpos, hlink.2⟩)
      have hcount : ((s.setWire w false).lower (gsiOf w) []).gsiCount (s.route (linkOf w)) +
          (if gsiOf w = s.route (linkOf w) then 1 else 0) = s.gsiCount (s.route (linkOf w)) :=
        lower_gsiCount hdirect hlt [] (s.route (linkOf w))
      have hroute := hc.lt (s.route (linkOf w))
      refine Moves.lower (hfirst.setLink _ _) hlink.2 ?_ ?_ (drives_of_update (deassertIrq_drive ?_))
      · show 0 < ((s.setWire w false).lower (gsiOf w) []).gsiCount (s.route (linkOf w))
        omega
      · show ((s.setWire w false).lower (gsiOf w) []).gsiCount (s.route (linkOf w)) < 256
        omega
      · exact hw.noPirq _
    · exact hfirst.setLink _ _

theorem isaGsi_of_ne {i : Fin 16} (h : i ≠ 0) : isaGsi i = i.val ∧ i.val ≠ 0 := by
  have hne : i.val ≠ 0 := fun hz => h (Fin.ext hz)
  exact ⟨if_neg hne, hne⟩

theorem moves_setIsa (s : State) {i : Fin 16} (hi : i ≠ 0) (level : Bool) : Moves s (s.setIsa i level) := by
  refine Moves.refl.set ?_
  have hzero : (s.setIsa i level).isaIrq 0 = s.isaIrq 0 := by
    show Function.update s.isaIrq i level 0 = _
    rw [Function.update_of_ne hi.symm]
  rw [hzero]
  rfl

theorem moves_isaIrqAssert (hc : s.Counted) (hw : s.Wired) {i : Fin 16} (hi : i ≠ 0) : Moves s (s.isaIrqAssert i) := by
  rcases isaGsi_of_ne hi with ⟨hgsi, hne⟩
  unfold State.isaIrqAssert
  split
  · exact .refl
  · rw [hgsi]
    refine (s.moves_setIsa hi true).raise hne ?_ (drives_of_update (assertIrq_drive _ _ _)) (assertIrq_pin (hw.noPirq _) _)
    exact Nat.lt_trans (hc.lt i.val) (by decide)

theorem moves_isaIrqDeassert (hc : s.Counted) (hw : s.Wired) {i : Fin 16} (hi : i ≠ 0) :
    Moves s (s.isaIrqDeassert i) := by
  rcases isaGsi_of_ne hi with ⟨hgsi, hne⟩
  unfold State.isaIrqDeassert
  cases hon : s.isaIrq i with
  | false => exact .refl
  | true =>
    have hpos := hc.isa_pos hon
    rw [Bool.not_true, if_neg Bool.false_ne_true]
    rw [hgsi] at hpos ⊢
    refine (s.moves_setIsa hi false).lower hne hpos ?_ (drives_of_update (deassertIrq_drive ?_))
    · exact Nat.lt_trans (hc.lt i.val) (by decide)
    · exact hw.noPirq _

theorem Driven.setCount_timer (h : s.Driven) {level : Bool} {edges : List Edge} (n : Nat)
    (hedges : ∀ pic, edges.foldl Edge.drive pic = Function.update pic 0 level) :
    ((s.setIsa 0 level).setCount 2 n true edges).Driven := by
  have hpic : ((s.setIsa 0 level).setCount 2 n true edges).pic = Function.update s.pic 0 level := hedges s.pic
  constructor
  · show _ = Function.update s.isaIrq 0 level 0
    rw [hpic, Function.update_self, Function.update_self]
  · intro i h1 h15 h2
    rw [hpic, setCount_gsiCount, if_neg h2, Function.update_of_ne (Nat.ne_of_gt h1)]
    exact h.input i h1 h15 h2

theorem Driven.isaIrqAssert (h : s.Driven) (hc : s.Counted) (hw : s.Wired) {i : Fin 16}
    (halone : i = 0 → s.isaIrq 0 = true ∨ s.gsiCount 2 = 0) : (s.isaIrqAssert i).Driven := by
  by_cases hi : i = 0
  · rw [hi]
    unfold State.isaIrqAssert
    split
    · exact h
    · rename_i hoff
      have hzero : s.gsiCount 2 = 0 := (halone hi).resolve_left hoff
      have hfires : decide ((s.setIsa 0 true).gsiCount (isaGsi 0) = 0) = true := decide_eq_true hzero
      unfold State.raise
      dsimp only
      rw [hfires]
      exact h.setCount_timer _ (assertIrq_drive _ _ _)
  · exact (moves_isaIrqAssert hc hw hi).driven h

theorem Driven.isaIrqDeassert (h : s.Driven) (hc : s.Counted) (hw : s.Wired) {i : Fin 16}
    (halone : i = 0 → s.isaIrq 0 = false ∨ s.gsiCount 2 = 1) : (s.isaIrqDeassert i).Driven := by
  by_cases hi : i = 0
  · rw [hi]
    unfold State.isaIrqDeassert
    cases hon : s.isaIrq 0 with
    | false => exact h
    | true =>
      have hone : s.gsiCount 2 = 1 := (halone hi).resolve_left fun hoff => by rw [hon] at hoff; exact Bool.noConfusion hoff
      have hfires : decide (dec8 ((s.setIsa 0 false).gsiCount (isaGsi 0)) = 0) = true := by
        show decide (dec8 (s.gsiCount 2) = 0) = true
        rw [hone]
        rfl
      rw [Bool.not_true, if_neg Bool.false_ne_true]
      unfold State.lower
      dsimp only
      rw [hfires]
      exact h.setCount_timer _ (deassertIrq_drive (hw.noPirq _))
  · exact (moves_isaIrqDeassert hc hw hi).driven h

theorem moves_setPciLinkRoute (hc : s.Counted) (link : Fin 4) (isaIrq : Fin 16) :
    Moves s (s.setPciLinkRoute link isaIrq) := by
  unfold State.setPciLinkRoute
  dsimp only
  split
  · exact .refl
  · have hset : Moves s (s.setRoute link isaIrq.val) := Moves.refl.set rfl
    split
    · exact hset
    · rename_i hon
      -- the old route goes down first
      have hdown : Moves s (if s.route link ≠ 0 then (s.setRoute link isaIrq.val).lower (s.route link) [.low (s.route link)]
          else s.setRoute link isaIrq.val) ∧
          (if s.route link ≠ 0 then (s.setRoute link isaIrq.val).lower (s.route link) [.low (s.route link)]
            else s.setRoute link isaIrq.val).gsiCount isaIrq < 255 := by
        have hlt : s.gsiCount isaIrq < 255 := Nat.lt_trans (hc.lt isaIrq) (by decide)
        split
        · rename_i hne
          have hpos : 0 < (s.setRoute link isaIrq.val).gsiCount (s.route link) := hc.link_pos (linkOn_iff.2 ⟨hon, hne⟩)
          have hbyte : (s.setRoute link isaIrq.val).gsiCount (s.route link) < 256 :=
            Nat.lt_trans (hc.lt (s.route link)) (by decide)
          constructor
          · exact hset.lower hne hpos hbyte (drives_of_update fun _ => rfl)
          · have hcount := lower_gsiCount hpos hbyte [.low (s.route link)] isaIrq
            have hsame : (s.setRoute link isaIrq.val).gsiCount isaIrq = s.gsiCount isaIrq := rfl
            omega
        · exact ⟨hset, hlt⟩
      generalize (if s.route link ≠ 0 then (s.setRoute link isaIrq.val).lower (s.route link) [.low (s.route link)]
          else s.setRoute link isaIrq.val) = t at hdown ⊢
      split
      · rename_i hne
        exact hdown.1.raise hne hdown.2 (drives_of_update fun _ => rfl) (List.mem_singleton_self _)
      · exact hdown.1

theorem moves_driveVia (hc : s.Counted) (hw : s.Wired) {level : Bool} (hne : s.asserted = !level) :
    Moves s ((s.setAsserted level).driveVia level) := by
  have hset : Moves s (s.setAsserted level) := Moves.refl.set rfl
  have hwired : (s.setAsserted level).Wired := ⟨hw.noPirq, hw.via⟩
  unfold State.driveVia
  split
  · rename_i gsi hvia
    have hgsi : gsi ≠ 0 := by
      intro hz
      rw [hz] at hvia
      exact hw.via hvia
    split
    · exact hset.raise hgsi (Nat.lt_trans (hc.lt gsi) (by decide)) (viaHigh_drives gsi) (List.mem_cons_self ..)
    · rename_i hlow
      rw [Bool.eq_false_of_not_eq_true hlow] at hne
      exact hset.lower hgsi (hc.callback_pos hvia hne) (Nat.lt_trans (hc.lt gsi) (by decide)) (viaLow_drives gsi)
  · rename_i w hvia
    have hcounted : (s.setAsserted level).Counted := hc.setAsserted hvia level
    split
    · exact hset.trans (moves_pciIntxAssert hcounted hwired w)
    · exact hset.trans (moves_pciIntxDeassert hcounted hwired w)
  · exact hset

theorem moves_setCallbackIrqLevel (hc : s.Counted) (hw : s.Wired) (asserted : Bool) :
    Moves s (s.setCallbackIrqLevel asserted) := by
  unfold State.setCallbackIrqLevel
  split
  · exact .refl
  · rename_i hne
    exact moves_driveVia hc hw (Bool.eq_not.2 hne)

theorem moves_setCallbackVia (hc : s.Counted) (hw : s.Wired) (via : BitVec 64) : Moves s (s.setCallbackVia via) := by
  cases ha : s.asserted with
  | false =>
    have hout : (s.setVia (decodeVia via)).asserted = false := ha
    unfold State.setCallbackVia
    dsimp only
    rw [ha, if_neg Bool.false_ne_true, hout, if_neg Bool.false_ne_true]
    exact Moves.refl.set rfl
  | true =>
    rw [setCallbackVia_eq ha]
    have hlow := moves_setCallbackIrqLevel hc hw false
    have hcount := (hc.setCallbackIrqLevel false).setVia (s.setCallbackIrqLevel_asserted false) (decodeVia via)
    have hwired := (hw.of_config (s.setCallbackIrqLevel_config false)).setVia via
    have hset : Moves s ((s.setCallbackIrqLevel false).setVia (decodeVia via)) := hlow.set rfl
    exact hset.trans (moves_setCallbackIrqLevel hcount hwired true)

end State

/-- One step that is not a load keeps the inputs right. -/
theorem act_driven {step : Step} {s : State} (hlive : step.live) (halone : TimerAlone step s) (hc : s.Counted)
    (hw : s.Wired) (h : s.Driven) : (act step s).Driven := by
  cases step with
  | pciIntxAssert w => exact (State.moves_pciIntxAssert hc hw w).driven h
  | pciIntxDeassert w => exact (State.moves_pciIntxDeassert hc hw w).driven h
  | isaIrqAssert i => exact h.isaIrqAssert hc hw halone
  | isaIrqDeassert i => exact h.isaIrqDeassert hc hw halone
  | setPciLinkRoute link isaIrq => exact (State.moves_setPciLinkRoute hc link isaIrq).driven h
  | setCallbackVia via => exact (State.moves_setCallbackVia hc hw via).driven h
  | setCallbackIrqLevel asserted => exact (State.moves_setCallbackIrqLevel hc hw asserted).driven h
  | load pciIntx isaIrq route => exact False.elim hlive

theorem act_wired {step : Step} {s : State} (hlive : step.live) (h : s.Wired) : (act step s).Wired := by
  cases step with
  | pciIntxAssert w => exact h.of_config (s.pciIntxAssert_config w)
  | pciIntxDeassert w => exact h.of_config (s.pciIntxDeassert_config w)
  | isaIrqAssert i => exact h.of_config (s.isaIrqAssert_config i)
  | isaIrqDeassert i => exact h.of_config (s.isaIrqDeassert_config i)
  | setPciLinkRoute link isaIrq => exact h.of_config (s.setPciLinkRoute_config link isaIrq)
  | setCallbackVia via => exact h.setCallbackVia via
  | setCallbackIrqLevel asserted => exact h.of_config (s.setCallbackIrqLevel_config asserted)
  | load pciIntx isaIrq route => exact False.elim hlive

/-- After a run whose loads are of routes in range, the counts are the numbers of sources. In a
domain without pirqs, after a run without loads in which the timer changes only while nothing else
asserts its GSI, the inputs of the 8259s are where the sources are. -/
theorem run_lines_counted (usePirq : Nat → Bool) (steps : List Step)
    (hsteps : Runs.Each act (fun step s => Admitted step s ∧ step.inRange) steps (init usePirq)) :
    (Runs.run act steps (init usePirq)).Counted ∧
    ((∀ g, usePirq g = false) → Runs.Each act (fun step s => step.live ∧ TimerAlone step s) steps (init usePirq) →
      (Runs.run act steps (init usePirq)).Driven) := by
  constructor
  · exact hsteps.inv (fun step s hok h => act_counted hok.1 hok.2 h) (init_counted usePirq)
  · intro hno hlive
    have hinv : ∀ step s, (Admitted step s ∧ step.inRange) ∧ step.live ∧ TimerAlone step s →
        s.Counted ∧ s.Wired ∧ s.Driven → (act step s).Counted ∧ (act step s).Wired ∧ (act step s).Driven := by
      intro step s ⟨hok, hlive, halone⟩ ⟨hc, hw, hd⟩
      exact ⟨act_counted hok.1 hok.2 hc, act_wired hlive hw, act_driven hlive halone hc hw hd⟩
    have hwired : (init usePirq).Wired := ⟨hno, fun hvia => Via.noConfusion hvia⟩
    have hdriven : (init usePirq).Driven := ⟨rfl, fun _ _ _ _ => rfl⟩
    exact ((hsteps.and hlive).inv hinv ⟨init_counted usePirq, hwired, hdriven⟩).2.2

/-- A device behind a link that is routed to input 5, and a tick of the timer. -/
theorem run_lines_counted_tick :
    let steps := [.setPciLinkRoute 0 5, .pciIntxAssert 0, .isaIrqAssert 0, .isaIrqDeassert 0]
    (Runs.run act steps (init fun _ => false)).Counted ∧ (Runs.run act steps (init fun _ => false)).Driven := by
  have h := run_lines_counted (fun _ => false) [.setPciLinkRoute 0 5, .pciIntxAssert 0, .isaIrqAssert 0, .isaIrqDeassert 0]
    ⟨⟨trivial, trivial⟩, ⟨trivial, trivial⟩, ⟨trivial, trivial⟩, ⟨trivial, trivial⟩, trivial⟩
  refine ⟨h.1, h.2 (fun _ => rfl) ⟨⟨trivial, trivial⟩, ⟨trivial, trivial⟩, ⟨trivial, fun _ => ?_⟩, ⟨trivial, fun _ => ?_⟩, trivial⟩⟩
  · exact .inr (by decide)
  · exact .inr (by decide)

/-- The edge of the timer is lost while a link that is routed to input 2 is asserted; and a load of
a route that is out of range leaves a link that is not counted. -/
theorem timer_edge_lost :
    (∃ steps : List Step, (∀ step ∈ steps, step.live) ∧ ¬(Runs.run act steps (init fun _ => false)).Driven) ∧
    ∃ step : Step, Admitted step (init fun _ => false) ∧ ¬(act step (init fun _ => false)).Counted := by
  constructor
  · refine ⟨[.setPciLinkRoute 0 2, .pciIntxAssert 0, .isaIrqAssert 0], by simp [Step.live], fun h => ?_⟩
    have htimer := h.timer
    revert htimer
    decide
  · refine ⟨.load (fun w => w = 0) (fun _ => false) (fun _ => 60), rfl, fun h => ?_⟩
    have hpos := h.link_pos (l := 0) (by decide +kernel)
    revert hpos
    decide +kernel

/-! ## The edges of the I/O APIC -/

namespace State

variable {s t : State}

/-- A GSI whose count left zero has been raised on the way. -/
def Rises (s t : State) : Prop :=
  ∃ new, t.raised = s.raised ++ new ∧ ∀ g, s.gsiCount g = 0 → t.gsiCount g ≠ 0 → g ∈ new

theorem rises_refl (s : State) : Rises s s := ⟨[], (List.append_nil _).symm, fun _ hz hne => absurd hz hne⟩

theorem Rises.set {u : State} (h : Rises s t) (hsame : u.gsiCount = t.gsiCount ∧ u.raised = t.raised) : Rises s u := by
  rcases h with ⟨new, hraised, hnew⟩
  refine ⟨new, hsame.2.trans hraised, ?_⟩
  rw [hsame.1]
  exact hnew

theorem setCount_raised (s : State) (g n : Nat) (fires : Bool) (edges : List Edge) :
    (s.setCount g n fires edges).raised = s.raised ++ if fires then edges.filterMap Edge.pin else [] := by
  cases fires with
  | true => rfl
  | false => exact (List.append_nil _).symm

theorem Rises.raise (h : Rises s t) {g : Nat} {edges : List Edge} (hlt : t.gsiCount g < 255)
    (hpin : g ∈ edges.filterMap Edge.pin) : Rises s (t.raise g edges) := by
  rcases h with ⟨new, hraised, hnew⟩
  refine ⟨new ++ if decide (t.gsiCount g = 0) then edges.filterMap Edge.pin else [], ?_, fun k hz hne => ?_⟩
  · unfold State.raise
    rw [setCount_raised, hraised, List.append_assoc]
  · by_cases hk : t.gsiCount k = 0
    · rw [raise_gsiCount hlt, hk] at hne
      by_cases hgk : g = k
      · refine List.mem_append_right _ ?_
        rw [hgk, hk, decide_eq_true rfl, if_pos rfl, ← hgk]
        exact hpin
      · rw [if_neg hgk] at hne
        exact absurd rfl hne
    · exact List.mem_append_left _ (hnew k hz hk)

theorem Rises.lower (h : Rises s t) {g : Nat} {edges : List Edge} (hpos : 0 < t.gsiCount g)
    (hlt : t.gsiCount g < 256) : Rises s (t.lower g edges) := by
  rcases h with ⟨new, hraised, hnew⟩
  refine ⟨new ++ if decide (dec8 (t.gsiCount g) = 0) then edges.filterMap Edge.pin else [], ?_, fun k hz hne => ?_⟩
  · unfold State.lower
    rw [setCount_raised, hraised, List.append_assoc]
  · have hcount := lower_gsiCount hpos hlt edges k
    exact List.mem_append_left _ (hnew k hz (by omega))

theorem Moves.rises (h : Moves s t) : Rises s t := by
  induction h with
  | refl => exact s.rises_refl
  | set _ hsame ih =>
    simp only [Prod.mk.injEq] at hsame
    exact ih.set ⟨hsame.1, hsame.2.2.1⟩
  | raise _ _ hlt _ hpin ih => exact ih.raise hlt hpin
  | lower _ _ hpos hlt _ ih => exact ih.lower hpos hlt

theorem rises_isaIrqAssert (hc : s.Counted) (hw : s.Wired) (i : Fin 16) : Rises s (s.isaIrqAssert i) := by
  unfold State.isaIrqAssert
  split
  · exact s.rises_refl
  · have hset : Rises s (s.setIsa i true) := s.rises_refl.set ⟨rfl, rfl⟩
    refine hset.raise ?_ (assertIrq_pin (hw.noPirq _) _)
    exact Nat.lt_trans (hc.lt (isaGsi i)) (by decide)

theorem rises_isaIrqDeassert (hc : s.Counted) (i : Fin 16) : Rises s (s.isaIrqDeassert i) := by
  unfold State.isaIrqDeassert
  cases hon : s.isaIrq i with
  | false => exact s.rises_refl
  | true =>
    have hset : Rises s (s.setIsa i false) := s.rises_refl.set ⟨rfl, rfl⟩
    rw [Bool.not_true, if_neg Bool.false_ne_true]
    refine hset.lower (hc.isa_pos hon) ?_
    exact Nat.lt_trans (hc.lt (isaGsi i)) (by decide)

end State

/-- A step that is not a load raises the GSIs whose counts leave zero. -/
theorem act_rises {step : Step} {s : State} (hlive : step.live) (hc : s.Counted) (hw : s.Wired) :
    State.Rises s (act step s) := by
  cases step with
  | pciIntxAssert w => exact (State.moves_pciIntxAssert hc hw w).rises
  | pciIntxDeassert w => exact (State.moves_pciIntxDeassert hc hw w).rises
  | isaIrqAssert i => exact State.rises_isaIrqAssert hc hw i
  | isaIrqDeassert i => exact State.rises_isaIrqDeassert hc i
  | setPciLinkRoute link isaIrq => exact (State.moves_setPciLinkRoute hc link isaIrq).rises
  | setCallbackVia via => exact (State.moves_setCallbackVia hc hw via).rises
  | setCallbackIrqLevel asserted => exact (State.moves_setCallbackIrqLevel hc hw asserted).rises
  | load pciIntx isaIrq route => exact False.elim hlive

end Hvm.Irq
