import TempHumid.Th2.DacWrite

/-!
# Residue of the calibration switch

The handler rescales the codes only when it decodes a fresh frame with the
switch released. After a press the calibration levels therefore stay in
`tdac_val` and `hdac_val` until the next fresh frame, and a read that returns
a stale frame in between writes them to the DACs.
-/

namespace TempHumid.Th2

open Machine

/-- What the past says about the switch: its level at the preceding tick,
whether a fresh frame has been decoded, and whether no press has been sampled
since the latest one, neither by a tick nor by that decoding itself. -/
structure SwitchLog where
  tickReleased : Bool
  freshSeen : Bool
  clean : Bool
  deriving DecidableEq

def switchStep (g : SwitchLog) (en : Entry Firmware Event Act) : SwitchLog :=
  match en.input with
  | .tick released => { g with tickReleased := released, clean := g.clean && released }
  | .mb => g
  | .sb b released =>
      match completed en.before (.sb b released) with
      | some f => if f.Fresh then { g with freshSeen := true, clean := released } else g
      | none => g

def SwitchLog.start : SwitchLog := ⟨false, false, false⟩

/-- The firmware together with the log of its switch. -/
abbrev switchMachine : Step (Firmware × SwitchLog) Event Act := paired step switchStep

/-- The codes are the firmware's own scaling of the published values. -/
def Scaled (s : Firmware) : Prop :=
  s.tdacVal = scaleTemp s.usbVal.w0 ∧ s.hdacVal = scaleHumid s.usbVal.w1

instance (s : Firmware) : Decidable (Scaled s) :=
  inferInstanceAs (Decidable (s.tdacVal = scaleTemp s.usbVal.w0 ∧
    s.hdacVal = scaleHumid s.usbVal.w1))

/-- The fourth byte of a read starts the DAC writes, with the switch released
now and at the preceding tick. -/
def StartsReleased (p : Firmware × SwitchLog) : Event → Prop
  | .sb b true => (completed p.1 (.sb b true)).isSome = true ∧ p.2.tickReleased = true
  | _ => False

instance (p : Firmware × SwitchLog) : ∀ e, Decidable (StartsReleased p e)
  | .sb b true => inferInstanceAs (Decidable ((completed p.1 (.sb b true)).isSome = true ∧
      p.2.tickReleased = true))
  | .sb _ false | .tick _ | .mb => isFalse id

/-- A start of the DAC writes with a released switch, once a fresh frame has
been decoded, leaves no residue of a calibration. -/
def NoResidue (p : Firmware × SwitchLog) (e : Event) : Prop :=
  StartsReleased p e → (switchStep p.2 (entry step p.1 e)).freshSeen = true →
    Scaled (step p.1 e).1

instance (p : Firmware × SwitchLog) (e : Event) : Decidable (NoResidue p e) :=
  inferInstanceAs (Decidable (_ → _ → _))

/-- Such a start with a frame that is not fresh finds no press sampled since
the latest fresh frame. -/
def CleanStart (p : Firmware × SwitchLog) (e : Event) : Prop :=
  StartsReleased p e → (∀ f ∈ completed p.1 e, ¬f.Fresh) → p.2.freshSeen = true →
    p.2.clean = true

instance (p : Firmware × SwitchLog) (e : Event) : Decidable (CleanStart p e) :=
  inferInstanceAs (Decidable (_ → _ → _ → _))

/-- Without a sampled press the codes are the scaled values. -/
structure SwitchInv (s : Firmware) (g : SwitchLog) : Prop where
  index : s.bytesRead ≤ 3
  scaled : g.clean = true → Scaled s

theorem switchInv_start : SwitchInv init .start where
  index := Nat.zero_le 3
  scaled h := by cases h

section Step

variable {s : Firmware} {g : SwitchLog}

theorem scaled_of_eq {s' : Firmware} (hs : Scaled s) (husb : s'.usbVal = s.usbVal)
    (htdac : s'.tdacVal = s.tdacVal) (hhdac : s'.hdacVal = s.hdacVal) : Scaled s' := by
  rw [Scaled, husb, htdac, hhdac]
  exact hs

/-- A fresh frame decoded with the switch released leaves scaled codes. -/
theorem scaled_of_fresh {b : Byte} {f : Frame} (hc : completed s (.sb b true) = some f)
    (hf : f.Fresh) : Scaled (step s (.sb b true)).1 := by
  obtain ⟨b', released, he, -, hstep⟩ := step_of_completed hc
  cases he
  rw [hstep]
  simp only [Scaled, afterFrame, hf, and_self, if_true]

/-- A frame that is not fresh keeps the readings and the codes. -/
theorem scaled_of_stale {b : Byte} {released : Bool} {f : Frame}
    (hc : completed s (.sb b released) = some f) (hf : ¬f.Fresh) (hs : Scaled s) :
    Scaled (step s (.sb b released)).1 := by
  obtain ⟨b', released', he, -, hstep⟩ := step_of_completed hc
  cases he
  rw [hstep]
  simpa only [Scaled, afterFrame, hf, false_and, if_false] using hs

theorem switchInv_step (h : SwitchInv s g) (e : Event) :
    SwitchInv (step s e).1 (switchStep g (entry step s e)) := by
  refine ⟨bytesRead_step h.index e, ?_⟩
  cases e with
  | tick released =>
      intro hclean
      obtain ⟨hg, rfl⟩ : g.clean = true ∧ released = true := by
        simpa only [switchStep, entry, Bool.and_eq_true] using hclean
      obtain ⟨husb, htdac, hhdac⟩ := tick_codes s true
      exact scaled_of_eq (h.scaled hg) husb htdac hhdac
  | mb =>
      intro hclean
      obtain ⟨husb, htdac, hhdac⟩ := mb_keeps s
      exact scaled_of_eq (h.scaled hclean) husb htdac hhdac
  | sb b released =>
      intro hclean
      simp only [switchStep, entry] at hclean
      cases hc : completed s (.sb b released) with
      | none =>
          rw [hc] at hclean
          obtain ⟨husb, htdac, hhdac⟩ := sb_of_not_completed h.index hc
          exact scaled_of_eq (h.scaled hclean) husb htdac hhdac
      | some f =>
          rw [hc] at hclean
          by_cases hf : f.Fresh
          · simp only [if_pos hf] at hclean
            subst hclean
            exact scaled_of_fresh hc hf
          · simp only [if_neg hf] at hclean
            exact scaled_of_stale hc hf (h.scaled hclean)

/-- A clean start leaves no residue. -/
theorem noResidue_of_cleanStart (h : SwitchInv s g) {e : Event} (hclean : CleanStart (s, g) e) :
    NoResidue (s, g) e := by
  intro hstart hseen
  cases e with
  | tick released => cases hstart
  | mb => cases hstart
  | sb b released =>
      obtain rfl : released = true := by
        cases released with
        | true => rfl
        | false => cases hstart
      obtain ⟨f, hc⟩ := Option.isSome_iff_exists.mp hstart.1
      by_cases hf : f.Fresh
      · exact scaled_of_fresh hc hf
      · simp only [switchStep, entry, hc, if_neg hf] at hseen
        refine scaled_of_stale hc hf (h.scaled (hclean hstart ?_ hseen))
        intro f' hc'
        rwa [← Option.some.inj (hc.symm.trans hc')]

end Step

/-- In a run in which every start of the DAC writes with a stale frame is clean,
no start leaves a residue of the calibration. -/
theorem no_residue (evs : List Event)
    (h : AllSteps switchMachine CleanStart (init, SwitchLog.start) evs) :
    AllSteps switchMachine NoResidue (init, SwitchLog.start) evs :=
  h.of_invariant (Q := NoResidue) (I := fun p => SwitchInv p.1 p.2) switchInv_start
    (fun _ e hp _ => switchInv_step hp e) fun _ _ hp hclean => noResidue_of_cleanStart hp hclean

/-- A stale frame. -/
def staleFrame : Frame := ⟨0x40, 0, 0, 0⟩

/-- A fresh frame, one tick with the given switch level, and a stale frame at
the next read, all other samples released. -/
def staleRead (released : Bool) : List Event :=
  firstRead roomFrame true ++ List.replicate 6 .mb ++ .tick released ::
    List.replicate 7 (.tick true) ++ [.mb, .tick true, .tick true] ++
    staleFrame.toList.map fun b => .sb b true

/-- Without a press the stale frame leaves the scaled codes of the fresh one. -/
theorem no_residue_stale : AllSteps switchMachine NoResidue (init, SwitchLog.start)
    (staleRead true) :=
  no_residue (staleRead true) (by decide +kernel)

/-- After the press the level 0 is still in `tdac_val` while 25.00 degrees are
published. -/
theorem residue_stale :
    ¬AllSteps switchMachine NoResidue (init, SwitchLog.start) (staleRead false) ∧
      (run (staleRead false)).tdacVal = 0 ∧ (run (staleRead false)).usbVal.w0 = 2500 := by
  decide +kernel

end TempHumid.Th2
