import MotionControl.Proofs.Engine.FaultFree
import MotionControl.Proofs.Scalar.Product

/-!
# Checked settings start

Settings are checked twice: block by block when they are read, and again by the engine and by the
constructors of its tree.  What passed the first time passes the second time, so the engines of a
process that was configured without a problem can all be built.

- `Engine.ofPlatform_builds`, `Engine.ofMotor_builds`: engines from checked settings and a checked
  period.
- `Engine.Wired`: the tree of an engine fits its plant, however long it runs.
- `SystemSettings.Checked`: what the settings of a process are checked for.
- `SystemSettings.motor?_of_mem`: a motor is found by its name.
- `SystemSettings.checkPeriod_of_check`: an accepted number of microseconds is a period.
- `SystemSettings.checked_settings_start`: the engines of a process.
-/

namespace MotionControl

open Scalar Outcome

variable {α : Type} [Scalar α]

/-! ## One engine -/

namespace Engine

variable {σ : Type}

/-- Checked settings of a vehicle and a checked period make an engine. -/
theorem ofPlatform_builds {settings : PlatformSettings α} {period : α}
    (hsettings : settings.check = .ok ()) (hperiod : checkPeriod period = .ok ())
    (odometer : Odometer α σ) (actuators : Actuators α σ) (targets : Option (TargetSource α σ))
    (attachments : Attachments α σ) (world : σ) :
    ∃ e, ofPlatform settings period odometer actuators targets attachments world = .ok e := by
  obtain ⟨tree, htree, -⟩ :=
    StandardTree.platform_built (PlatformSettings.checked hsettings) period
  unfold ofPlatform
  rw [hsettings, hperiod, htree]
  exact ⟨_, rfl⟩

/-- A checked axis with a checked period can be built. -/
theorem ofMotor_builds {settings : MotorSettings α} {period : α}
    (hsettings : settings.check = .ok ()) (hperiod : checkPeriod period = .ok ())
    (encoder : Encoder α σ) (actuators : Actuators α σ) (attachments : Attachments α σ)
    (world : σ) :
    ∃ e, ofMotor settings period encoder actuators attachments world = .ok e := by
  obtain ⟨tree, htree, -⟩ := StandardTree.motor_built (MotorSettings.checked hsettings) period
  unfold ofMotor
  rw [hsettings, hperiod, htree]
  exact ⟨_, rfl⟩

/-- However the engine was used, its tree is valid and has this many inputs and outputs.  Whenever
a cycle comes to control, the tree takes what was measured and gives the plant what it needs. -/
structure Wired (e : Engine α σ) (inputs outputs : Nat) : Prop where
  valid : ∀ operations, (e.attemptAll operations).tree.validate = .ok ()
  inputCount : ∀ operations, (e.attemptAll operations).tree.inputCount = inputs
  outputCount : ∀ operations, (e.attemptAll operations).tree.outputCount = outputs
  answers : ∀ operations ready,
    (e.attemptAll operations).tick.followPath.sense.beforeControl = .ok ready →
      ∀ speedMode, ∃ consulted, ready.consultTree speedMode = .ok consulted

variable [LawfulScalar α] {e : Engine α σ}

/-- An engine whose tree fits its plant stays so. -/
theorem Operable.wired (h : Operable e) : e.Wired e.plant.inputWidth e.plant.outputWidth := by
  have hrun := fun operations => h.attemptAll_maintained operations
  have hfits := fun operations => h.of_maintained (hrun operations)
  refine ⟨fun operations => (hfits operations).tree.validate, fun operations => ?_,
    fun operations => ?_, fun operations ready hready speedMode => ?_⟩
  · rw [(hfits operations).inputs, (hrun operations).plant]
  · rw [(hfits operations).outputs, (hrun operations).plant]
  · have hbefore := ((hrun operations).trans (sensed_maintained _)).trans
      (beforeControl_spec _).maintained
    rw [hready] at hbefore
    change Maintained e ready at hbefore
    obtain ⟨consulted, hconsulted, -⟩ := (h.of_maintained hbefore).consultTree speedMode
    exact ⟨consulted, hconsulted⟩

end Engine

/-! ## The engines of a process -/

namespace SystemSettings

/-- The engines of a process have settings that passed their checks, a period in range, and names
of their own. -/
structure Checked (s : SystemSettings α) : Prop where
  least : cycleTimeRange.1 ≤ s.cycleTime
  most : s.cycleTime ≤ cycleTimeRange.2
  platform : s.platform.check = .ok ()
  motors : ∀ m ∈ s.motors, m.check = .ok ()
  names : (s.motors.map (·.name)).Nodup

/-- Motors that pass have checked settings, and names that none before them has. -/
theorem checkMotors_eq_ok {seen : List String} {motors : List (MotorSettings α)}
    (h : checkMotors seen motors = .ok ()) :
    (∀ m ∈ motors, m.check = .ok () ∧ m.name ∉ seen) ∧ (motors.map (·.name)).Nodup := by
  induction motors generalizing seen with
  | nil => exact ⟨List.forall_mem_nil _, .nil⟩
  | cons first rest ih =>
    obtain ⟨_, hname, h⟩ := bind_eq_ok_iff.mp h
    obtain ⟨_, hfirst, hrest⟩ := bind_eq_ok_iff.mp h
    obtain ⟨hchecked, hnodup⟩ := ih hrest
    have hnew : first.name ∉ seen := by
      simpa using require_eq_ok_iff.mp (inSection_eq_ok_iff.mp hname)
    refine ⟨List.forall_mem_cons.mpr ⟨⟨hfirst, hnew⟩, fun m hm => ?_⟩,
      List.nodup_cons.mpr ⟨fun hmem => ?_, hnodup⟩⟩
    · exact ⟨(hchecked m hm).1, fun hseen => (hchecked m hm).2 (List.mem_cons_of_mem _ hseen)⟩
    · obtain ⟨m, hm, hsame⟩ := List.mem_map.mp hmem
      exact (hchecked m hm).2 (hsame ▸ List.mem_cons_self)

/-- The check of a system is the checks of its parts. -/
theorem checked {s : SystemSettings α} (h : s.check = .ok ()) : s.Checked := by
  obtain ⟨_, -, h⟩ := bind_eq_ok_iff.mp h
  obtain ⟨_, htime, h⟩ := bind_eq_ok_iff.mp h
  obtain ⟨_, hplatform, h⟩ := bind_eq_ok_iff.mp h
  obtain ⟨_, -, hmotors⟩ := bind_eq_ok_iff.mp h
  obtain ⟨hleast, hmost⟩ :=
    Bool.and_eq_true_iff.mp (require_eq_ok_iff.mp (inSection_eq_ok_iff.mp htime))
  obtain ⟨hchecked, hnames⟩ := checkMotors_eq_ok hmotors
  exact ⟨of_decide_eq_true hleast, of_decide_eq_true hmost, hplatform,
    fun m hm => (hchecked m hm).1, hnames⟩

omit [Scalar α] in
/-- Where names are unique, a motor is found by its name. -/
theorem find?_of_mem {motors : List (MotorSettings α)} (h : (motors.map (·.name)).Nodup)
    {m : MotorSettings α} (hm : m ∈ motors) :
    motors.find? (·.name = m.name) = some m := by
  induction motors with
  | nil => cases hm
  | cons first rest ih =>
    obtain ⟨hfirst, hrest⟩ := List.nodup_cons.mp h
    rcases List.mem_cons.mp hm with rfl | hm
    · exact List.find?_cons_of_pos (decide_eq_true rfl)
    · have hne : first.name ≠ m.name := by
        intro hsame
        exact hfirst (List.mem_map.mpr ⟨m, hm, hsame.symm⟩)
      rw [List.find?_cons_of_neg (by simpa using hne)]
      exact ih hrest hm

/-- Every motor is found by its name. -/
theorem motor?_of_mem {s : SystemSettings α} (h : s.Checked) {m : MotorSettings α}
    (hm : m ∈ s.motors) : s.motor? m.name = .ok m := by
  rw [motor?, find?_of_mem h.names hm]

omit [Scalar α] in
/-- No motor is found by a name that none has. -/
theorem motor?_unknown {s : SystemSettings α} {name : String}
    (h : ∀ m ∈ s.motors, m.name ≠ name) :
    s.motor? name = .error ⟨["motors"], .unknownMotor name⟩ := by
  have hnone : s.motors.find? (·.name = name) = none :=
    List.find?_eq_none.mpr fun m hm => by simpa using h m hm
  rw [motor?, hnone]

/-- An accepted number of microseconds is a period. -/
theorem checkPeriod_of_check {s : SystemSettings Float} (h : s.Checked) :
    Engine.checkPeriod s.period = .ok () := by
  have hleast := UInt32.le_iff_toNat_le.mp h.least
  have hmost := UInt32.le_iff_toNat_le.mp h.most
  have hfull := Binary64.full_seconds (n := s.cycleTime.toNat)
    (Nat.ne_of_gt (Nat.lt_of_lt_of_le (by decide) hleast))
    (Nat.lt_of_le_of_lt hmost (by decide))
  refine mapError_eq_ok_iff.mpr (inSection_eq_ok_iff.mpr (require_eq_ok_iff.mpr ?_))
  exact Bool.and_eq_true_iff.mpr ⟨decide_eq_true hfull.pos, hfull.isFinite⟩

/-- Settings of a process that pass their check start.  The vehicle engine is built, and its tree is
valid and takes and gives as many signals as a vehicle has.  Every motor is found by its name, with
its own settings, and its engine is built likewise.  By any other name no motor is found. -/
theorem checked_settings_start {s : SystemSettings Float} (h : s.check = .ok ()) :
    (∀ {σ : Type} (odometer : Odometer Float σ) (actuators : Actuators Float σ)
        (targets : Option (TargetSource Float σ)) (attachments : Attachments Float σ) (world : σ),
      ∃ e, Engine.ofPlatform s.platform s.period odometer actuators targets attachments world
          = .ok e ∧ e.Wired 13 4) ∧
    (∀ m ∈ s.motors, s.motor? m.name = .ok m ∧
      ∀ {σ : Type} (encoder : Encoder Float σ) (actuators : Actuators Float σ)
          (attachments : Attachments Float σ) (world : σ),
        ∃ e, Engine.ofMotor m s.period encoder actuators attachments world = .ok e ∧
          e.Wired 6 2) ∧
    ∀ name, (∀ m ∈ s.motors, m.name ≠ name) →
      s.motor? name = .error ⟨["motors"], .unknownMotor name⟩ := by
  have hchecked := checked h
  have hperiod := checkPeriod_of_check hchecked
  refine ⟨fun odometer actuators targets attachments world => ?_, fun m hm =>
    ⟨motor?_of_mem hchecked hm, fun encoder actuators attachments world => ?_⟩,
    fun name => motor?_unknown⟩
  · obtain ⟨e, hbuilt⟩ := Engine.ofPlatform_builds hchecked.platform hperiod odometer actuators
      targets attachments world
    have hwired := (Engine.Built.platform hbuilt).operable.wired
    obtain ⟨_, _, -, rfl⟩ := Engine.ofPlatform_eq_ok hbuilt
    exact ⟨_, hbuilt, hwired⟩
  · obtain ⟨e, hbuilt⟩ := Engine.ofMotor_builds (hchecked.motors m hm) hperiod encoder actuators
      attachments world
    have hwired := (Engine.Built.motor hbuilt).operable.wired
    obtain ⟨_, _, -, rfl⟩ := Engine.ofMotor_eq_ok hbuilt
    exact ⟨_, hbuilt, hwired⟩

/-- A vehicle with a lift and a gripper. -/
def crane : SystemSettings Float :=
  { (default : SystemSettings Float) with motors := [.named "lift", .named "gripper"] }

/-- It starts, and so does its gripper; it has no winch. -/
theorem crane_starts :
    (∃ e : Engine Float Unit, Engine.ofPlatform crane.platform crane.period
        ⟨fun _ => (⟨.of 0 0 0, .speed 0 0⟩, ()), fun _ _ => ()⟩ ⟨fun _ _ => (), fun _ => ()⟩ none
          .none () = .ok e ∧ e.Wired 13 4) ∧
    (crane.motor? "gripper" = .ok (.named "gripper") ∧
      ∃ e : Engine Float Unit, Engine.ofMotor (.named "gripper") crane.period
        ⟨fun _ => (⟨0, 0⟩, ()), fun _ _ => ()⟩ ⟨fun _ _ => (), fun _ => ()⟩ .none () = .ok e ∧
          e.Wired 6 2) ∧
    crane.motor? "winch" = .error ⟨["motors"], .unknownMotor "winch"⟩ := by
  obtain ⟨vehicle, motors, unknown⟩ := checked_settings_start (s := crane) rfl
  obtain ⟨hfound, hgripper⟩ := motors (.named "gripper") (.tail _ (.head _))
  refine ⟨vehicle _ _ _ _ _, ⟨hfound, hgripper _ _ _ _⟩, unknown "winch" ?_⟩
  simp [crane, MotorSettings.named]

end SystemSettings

end MotionControl
