import MemoryMonitor.Timer.Entry

/-!
# The operations keep the invariant

None of them comes to a `BUG`, except `kill_timer` for the timer whose callback is
running on the CPU.
-/

namespace Timer

variable {R : Int → Prop} {timerSlop : Int} {w : World} {c : Nat} {t : Tid}

theorem deactivateTimer_inv {k : Kind} (h : Inv R timerSlop w) (hc : w.cpu t = some c)
    (hs : w.status t = k.status) (hk : k.Active) :
    ∃ w', deactivateTimer t w = some w' ∧ Inv R timerSlop w' ∧ w'.cpu = w.cpu ∧
      w'.status t = .inactive := by
  rcases h.safe.removeEntry hc hs hk (World.place_eq_some.mpr ⟨hc, hs⟩) with
    ⟨rc, ts, off, he, hsafe⟩
  unfold deactivateTimer
  rw [hc]
  dsimp only
  rw [he]
  refine ⟨_, rfl, ?_, rfl, Function.update_self ..⟩
  have hsafe' := (((hsafe.setStatus t .invalid).raiseIf c rc).setStatus t .inactive).addInactive c
    (Function.update_self ..)
  rw [Function.update_idem] at hsafe'
  refine h.of_update (k := .inactive) (fun _ _ => rfl) (fun x hx => ?_) hc
    (Function.update_self ..) hsafe'
  show Function.update (Function.update w.status t _) t _ x = _
  rw [Function.update_of_ne hx, Function.update_of_ne hx]

theorem Inv.inactive_or_active (h : Inv R timerSlop w) (hc : w.cpu t = some c) :
    (w.status t = .inactive ∧ activeTimer t w = false) ∨
      ∃ k : Kind, k.Active ∧ w.status t = k.status ∧ activeTimer t w = true := by
  rcases h.settled t c hc with ⟨k, hk⟩
  cases k with
  | heap => exact .inr ⟨.heap, Kind.noConfusion, hk, by simp [activeTimer, hk, Kind.status]⟩
  | list => exact .inr ⟨.list, Kind.noConfusion, hk, by simp [activeTimer, hk, Kind.status]⟩
  | inactive => exact .inl ⟨hk, by simp [activeTimer, hk, Kind.status]⟩

theorem deactivateIfActive_inv (h : Inv R timerSlop w) (hc : w.cpu t = some c) :
    ∃ w', deactivateIfActive t w = some w' ∧ Inv R timerSlop w' ∧ w'.cpu = w.cpu ∧
      w'.status t = .inactive := by
  unfold deactivateIfActive
  rcases h.inactive_or_active hc with ⟨hs, ha⟩ | ⟨k, hk, hs, ha⟩
  · rw [ha, if_neg (by simp)]
    exact ⟨w, rfl, h, rfl, hs⟩
  · rw [ha, if_pos rfl]
    exact deactivateTimer_inv h hc hs hk

theorem activateTimer_inv (h : Inv R timerSlop w) (hc : w.cpu t = some c)
    (hs : w.status t = .inactive) :
    ∃ w', activateTimer t w = some w' ∧ Inv R timerSlop w' ∧ w'.cpu = w.cpu := by
  have hplace : w.place t = some (c, .inactive) := World.place_eq_some.mpr ⟨hc, hs⟩
  have hsafe : Safe R timerSlop ((w.setStatus t .invalid).delInactive c t)
      (Function.update w.place t none) := (h.safe.setStatus t .invalid).delInactive hplace
  rcases hsafe.addEntry (c := c) hc (Function.update_self ..) with ⟨rc, ts, off, k, he, hsafe'⟩
  unfold activateTimer
  rw [hc]
  dsimp only
  rw [he]
  refine ⟨_, rfl, ?_, rfl⟩
  rw [Function.update_idem] at hsafe'
  refine h.of_update (k := k) (fun _ _ => rfl) (fun x hx => ?_) hc (Function.update_self ..)
    (hsafe'.setStatus t k.status)
  show Function.update (Function.update w.status t _) t _ x = _
  rw [Function.update_of_ne hx, Function.update_of_ne hx]

theorem setTimer_inv {e : Int} (h : Inv R timerSlop w) (he : R e) :
    ∃ w', setTimer t e w = some w' ∧ Inv R timerSlop w' ∧ w'.cpu = w.cpu := by
  unfold setTimer
  cases hc : w.cpu t with
  | none =>
    rw [if_pos rfl]
    exact ⟨w, rfl, h, rfl⟩
  | some c =>
    rw [if_neg nofun]
    rcases deactivateIfActive_inv h hc with ⟨w₁, he₁, h₁, hc₁, hs₁⟩
    rw [he₁]
    dsimp only
    have hc₁' : w₁.cpu t = some c := by
      rw [hc₁]
      exact hc
    -- the timer is inactive when its expiry changes
    have hin (d : Nat) (k : Kind) (hd : w₁.place t = some (d, k)) : k = .inactive := by
      have hk := (World.place_eq_some.mp hd).2
      rw [hs₁] at hk
      cases k <;> first | rfl | nomatch hk
    have h₂ : Inv R timerSlop { w₁ with expires := Function.update w₁.expires t e } :=
      ⟨h₁.safe.setExpires hin he, h₁.settled⟩
    rcases activateTimer_inv h₂ hc₁' hs₁ with ⟨w₂, he₂, h₂', hc₂⟩
    exact ⟨w₂, he₂, h₂', hc₂.trans hc₁⟩

theorem stopTimer_inv (h : Inv R timerSlop w) :
    ∃ w', stopTimer t w = some w' ∧ Inv R timerSlop w' ∧ w'.cpu = w.cpu := by
  unfold stopTimer
  cases hc : w.cpu t with
  | none =>
    rw [if_pos rfl]
    exact ⟨w, rfl, h, rfl⟩
  | some c =>
    rw [if_neg nofun]
    rcases deactivateIfActive_inv h hc with ⟨w₁, he₁, h₁, hc₁, -⟩
    exact ⟨w₁, he₁, h₁, hc₁⟩

theorem Inv.moveInactive (h : Inv R timerSlop w) (newCpu : Nat) (hc : w.cpu t = some c)
    (hs : w.status t = .inactive) :
    Inv R timerSlop (((w.delInactive c t).setCpu t (some newCpu)).addInactive newCpu t) := by
  have hplace : w.place t = some (c, .inactive) := World.place_eq_some.mpr ⟨hc, hs⟩
  have hsafe := ((h.safe.delInactive hplace).setCpu t (some newCpu)).addInactive newCpu
    (Function.update_self ..)
  rw [Function.update_idem] at hsafe
  exact h.of_update (k := .inactive) (fun x hx => Function.update_of_ne hx ..) (fun _ _ => rfl)
    (Function.update_self ..) hs hsafe

theorem migrateTimer_inv {newCpu : Nat} (h : Inv R timerSlop w) :
    ∃ w', migrateTimer t newCpu w = some w' ∧ Inv R timerSlop w' ∧
      ∀ x, (w'.cpu x).isSome = (w.cpu x).isSome := by
  unfold migrateTimer
  cases hc : w.cpu t with
  | none => exact ⟨w, rfl, h, fun _ => rfl⟩
  | some oldCpu =>
    dsimp only
    split
    · exact ⟨w, rfl, h, fun _ => rfl⟩
    · rcases deactivateIfActive_inv h hc with ⟨w₁, he₁, h₁, hc₁, hs₁⟩
      rw [he₁]
      dsimp only
      have hc₁' : w₁.cpu t = some oldCpu := by
        rw [hc₁]
        exact hc
      have h₂ := h₁.moveInactive newCpu hc₁' hs₁
      have hsome (x : Tid) :
          (Function.update w₁.cpu t (some newCpu) x).isSome = (w.cpu x).isSome := by
        by_cases hx : x = t
        · subst hx
          rw [Function.update_self, hc]
          rfl
        · rw [Function.update_of_ne hx, hc₁]
      split
      · rcases activateTimer_inv h₂ (Function.update_self ..) hs₁ with ⟨w₂, he₂, h₂', hc₂⟩
        refine ⟨w₂, he₂, h₂', fun x => ?_⟩
        rw [hc₂]
        exact hsome x
      · exact ⟨_, rfl, h₂, hsome⟩

/-- A timer leaves all containers. -/
theorem killTimer_inv (h : Inv R timerSlop w) (hrun : (w.ts c).running ≠ some t) :
    ∃ w', killTimer c t w = some w' ∧ Inv R timerSlop w' ∧
      w'.cpu = Function.update w.cpu t none := by
  unfold killTimer
  rw [if_neg hrun]
  cases hc : w.cpu t with
  | none =>
    refine ⟨w, rfl, h, ?_⟩
    rw [← hc, Function.update_eq_self]
  | some oldCpu =>
    dsimp only
    rcases deactivateIfActive_inv h hc with ⟨w₁, he₁, h₁, hc₁, hs₁⟩
    rw [he₁]
    refine ⟨_, rfl, ?_, by rw [← hc₁]; rfl⟩
    have hc₁' : w₁.cpu t = some oldCpu := by
      rw [hc₁]
      exact hc
    have hsafe := ((h₁.safe.delInactive (World.place_eq_some.mpr ⟨hc₁', hs₁⟩)).setStatus t
      .killed).setCpu t none
    constructor
    · rw [World.place_update (w := w₁) (t := t) (fun x hx => Function.update_of_ne hx ..)
        fun x hx => Function.update_of_ne hx ..]
      rw [World.place_eq_none (Function.update_self ..)]
      exact hsafe
    · intro x d hx
      have hxt : x ≠ t := by
        rintro rfl
        rw [show World.cpu _ x = none from Function.update_self ..] at hx
        cases hx
      change Function.update w₁.cpu t none x = some d at hx
      rw [Function.update_of_ne hxt] at hx
      show ∃ k : Kind, Function.update w₁.status t .killed x = k.status
      rw [Function.update_of_ne hxt]
      exact h₁.settled x d hx

theorem initTimer_inv (h : Inv R timerSlop w) (hc : w.cpu t = none) (h0 : R 0) :
    Inv R timerSlop (initTimer t c w) := by
  have hplace := World.place_eq_none hc
  have hin (d : Nat) (k : Kind) (hd : w.place t = some (d, k)) : k = .inactive := by
    rw [hplace] at hd
    nomatch hd
  have hsafe := h.safe.setExpires hin h0
  have hst : Stores { w with
      expires := Function.update w.expires t 0
      heapOffset := Function.update w.heapOffset t 0 } w.place :=
    hsafe.stores.setExpires hin (fun _ _ => rfl) fun x hx => Function.update_of_ne hx ..
  have hsafe' : Safe R timerSlop { w with
      expires := Function.update w.expires t 0
      heapOffset := Function.update w.heapOffset t 0
      cpu := Function.update w.cpu t (some c)
      status := Function.update w.status t .inactive } w.place :=
    ⟨hst, h.safe.limit, h.safe.growing, hsafe.announced, hsafe.expires, hsafe.lastExpires⟩
  exact h.of_update (k := .inactive) (fun x hx => Function.update_of_ne hx ..)
    (fun x hx => Function.update_of_ne hx ..) (Function.update_self ..) (Function.update_self ..)
    (hsafe'.addInactive c hplace)

end Timer
