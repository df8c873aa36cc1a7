import ObjectModel.Builtin.Globals
import ObjectModel.Host.Probes
import ObjectModel.Proofs.Errors.Caught

/-!
# Frames that are left behind

A callee that leaves frames behind is found out, as the innermost frame is then not its own. But only
that frame is taken away: the callee's own frame stays in place of it, below whatever else was left. So
the call leaves as many frames behind as its body did, and so does every guarded call around it
(`strays_remain`).
-/

namespace ObjectModel

open State ObjectModel.Action Behavior

variable {s t u : State} {callable guard callee : Ref} {args strays : List Ref} {host : Host}
  {rounds : Nat} {e : Ending}

namespace State

/-- The imbalance of the frames was raised, with the frames that are left as the traceback. -/
def Imbalanced (t : State) : Prop :=
  ∃ error traceback, t.pending = some ⟨error, traceback⟩ ∧
    t.payload error = .string "Function stack imbalance" ∧ t.payload traceback = .list t.frames.toArray

/-- A call of which the body ended as `before` left the frame of its callable: it ends as `after`. One
frame was taken away. If it was not that of the callable, the call raises. -/
structure Leaves (s : State) (callable : Ref) (strays : List Ref) (before after : Ending) (t : State) :
    Prop where
  frames : t.frames = (strays ++ [callable]).tail ++ s.frames
  balanced : (strays ++ [callable]).head? = some callable → after = before
  imbalanced : (strays ++ [callable]).head? ≠ some callable → after = .raised ∧ t.Imbalanced

end State

-- ---------------------------------------------------------------------------
-- One call
-- ---------------------------------------------------------------------------

theorem Action.ending?_eq_some_iff {α : Type} {action : Action α} :
    action.ending? s = some (e, t) ↔ action.Ends s (fun _ u => .value = e ∧ u = t)
      fun u => .raised = e ∧ u = t := by
  unfold ending? Ends
  cases action.run s with
  | ok => simp
  | error stop => cases stop <;> simp

theorem Action.Halts.exists_ending {α : Type} {action : Action α} (h : action.Halts s) :
    ∃ e t, action.ending? s = some (e, t) := by
  unfold Halts Ends at h
  cases hrun : action.run s with
  | ok a t => exact ⟨_, _, ending?_ok hrun⟩
  | error stop t =>
    cases stop with
    | raised => exact ⟨_, _, ending?_raised hrun⟩
    | exhausted => simp [hrun] at h

/-- The frame of a callable is left after its body left frames above it. -/
theorem ending?_inFrame_strays {action : Action α} (hroom : s.room ≠ 0)
    (hrun : action.ending? (s.framed callable) = some (e, u))
    (hframes : u.frames = strays ++ callable :: s.frames) :
    ∃ after t, (inFrame callable action).ending? s = some (after, t) ∧
      s.Leaves callable strays e after t := by
  have htail : u.frames.tail = (strays ++ [callable]).tail ++ s.frames := by
    rw [hframes]
    cases strays <;> simp
  have hhead : u.frames.head? = (strays ++ [callable]).head? := by
    rw [hframes]
    cases strays <;> rfl
  have hdeep : ¬ s.limits.depth ≤ s.depth := fun h => hroom ((room_eq_zero s).mpr h)
  have hrun : action.ending? { s with frames := callable :: s.frames } = some (e, u) := hrun
  simp only [ending?_inFrame, if_neg hdeep, ending?_followedBy, hrun, Option.bind_some, ending?_popFrame,
    hhead, Option.map_some]
  by_cases htop : (strays ++ [callable]).head? = some callable
  · rw [if_pos htop]
    exact ⟨_, _, rfl, htail, fun _ => rfl, (absurd htop ·)⟩
  · rw [if_neg htop]
    obtain ⟨error, traceback, hpending, herror, htraceback, -⟩ :=
      (raised_faulting { u with frames := u.frames.tail } .frameImbalance).pending
    refine ⟨_, _, rfl, htail, (absurd · htop), fun _ => ⟨rfl, error, traceback, hpending, herror, ?_⟩⟩
    exact htraceback

def State.running (s : State) (callee : Ref) (args : List Ref) : State :=
  (s.withHeld ([callee] :: (callee :: args) :: s.held)).framed callee

theorem ending?_call_strays {function : Native} (hnative : s.payload callee = .native function)
    (hroom : s.room ≠ 0)
    (hrun : (Natives.run (machine host rounds) args function).ending? (s.running callee args) =
      some (e, u))
    (hframes : u.frames = strays ++ callee :: s.frames) :
    ∃ after t, ((machine host (rounds + 1)).call callee args).ending? s = some (after, t) ∧
      s.Leaves callee strays e after t := by
  obtain ⟨after, t, hframe, hleaves⟩ := ending?_inFrame_strays
    (s := s.withHeld ([callee] :: (callee :: args) :: s.held)) hroom hrun hframes
  refine ⟨after, t.withHeld s.held, ?_, ⟨hleaves.frames, hleaves.balanced, hleaves.imbalanced⟩⟩
  rw [ending?_eq_some_iff, ends_call_native hnative]
  refine (ending?_eq_some_iff.mp hframe).imp ?_ ?_
  · rintro a v ⟨hvalue, rfl⟩
    exact ⟨hvalue, rfl⟩
  · rintro v ⟨hraised, rfl⟩
    exact ⟨hraised, rfl⟩

theorem Prelude.ending?_protect {machine : Machine}
    (hrun : (machine.call callee args).ending? (s.withHeld ([callee] :: s.held)) = some (e, u)) :
    ∃ t, (protect machine (callee :: args)).ending? s = some (.value, t) ∧ t.frames = u.frames := by
  have hends : (protect machine (callee :: args)).Ends s (fun _ t => t.frames = u.frames)
      fun _ => False := by
    rw [ends_protect]
    refine (ending?_eq_some_iff.mp hrun).imp ?_ ?_
    · rintro result t ⟨-, rfl⟩
      rfl
    · rintro t ⟨-, rfl⟩
      simp only [answer, ends_bind, ends_takePending]
      split <;> rfl
  obtain ⟨a, t, hrun, hframes⟩ := hends.exists_run
  exact ⟨t, ending?_ok hrun, hframes⟩

theorem ending?_guarded_strays (hguard : s.payload guard = .native (.builtin .protect))
    (hroom : s.room ≠ 0)
    (hrun : ((machine host rounds).call callee args).ending? (s.guarding guard callee args) = some (e, u))
    (hframes : u.frames = strays ++ guard :: s.frames) :
    ∃ after t, ((machine host (rounds + 1)).call guard (callee :: args)).ending? s = some (after, t) ∧
      s.Leaves guard strays .value after t := by
  let inside := s.running guard (callee :: args)
  have hinner : ((machine host rounds).call callee args).ending?
      (inside.withHeld ([callee] :: inside.held)) = some (e, u) := hrun
  obtain ⟨w, hbody, hsame⟩ := Prelude.ending?_protect hinner
  exact ending?_call_strays hguard hroom hbody (hsame.trans hframes)

-- ---------------------------------------------------------------------------
-- Calls inside guards
-- ---------------------------------------------------------------------------

/-- A call by way of guards, the outermost first: what is called, and its arguments. -/
def guardedCall : List Ref → Ref → List Ref → Ref × List Ref
  | [], callee, args => (callee, args)
  | guard :: guards, callee, args =>
    (guard, (guardedCall guards callee args).1 :: (guardedCall guards callee args).2)

/-- The state that a callee is called in by way of guards. -/
def State.within (s : State) : List Ref → Ref → List Ref → State
  | [], _, _ => s
  | guard :: guards, callee, args =>
    (s.guarding guard (guardedCall guards callee args).1 (guardedCall guards callee args).2).within
      guards callee args

/-- The calls under way in a nest of guards, innermost first. -/
def underway (guards : List Ref) (callee : Ref) : List Ref := callee :: guards.reverse

theorem underway_cons (guards : List Ref) (callee : Ref) :
    underway (guard :: guards) callee = underway guards callee ++ [guard] := by simp [underway]

theorem length_underway (guards : List Ref) (callee : Ref) :
    (underway guards callee).length = guards.length + 1 := by simp [underway]

theorem State.Leaves.of_line {line : List Ref} {count : Nat} {first after : Ending}
    (h : s.Leaves callable (line.drop count) first after t) (hline : count ≤ line.length) :
    t.frames = (line ++ [callable]).drop (count + 1) ++ s.frames ∧
      ((line ++ [callable])[count]? ≠ some callable → after = .raised ∧ t.Imbalanced) ∧
      ((line ++ [callable])[count]? = some callable → after = first) := by
  have hdrop : line.drop count ++ [callable] = (line ++ [callable]).drop count :=
    (List.drop_append_of_le_length hline).symm
  obtain ⟨hframes, hbalanced, himbalanced⟩ := h
  rw [hdrop, List.tail_drop] at hframes
  rw [hdrop, List.head?_drop] at hbalanced himbalanced
  exact ⟨hframes, himbalanced, hbalanced⟩

/-- A native function is called by way of guards and leaves frames behind, in front of those it found.
Each of the calls takes one frame away. The call as a whole leaves as many frames behind as the function
did, and it raises the imbalance, even if the outermost of the calls is guarded, unless the frame that call
finds is its own. -/
theorem strays_remain (host : Host) (rounds : Nat) (s : State) (guards : List Ref) (callee : Ref)
    (args : List Ref) (function : Native) (strays : List Ref) (e : Ending) (u : State)
    (hguards : ∀ guard ∈ guards, s.payload guard = .native (.builtin .protect))
    (hnative : s.payload callee = .native function) (hroom : guards.length < s.room)
    (hbody : (Natives.run (machine host rounds) args function).ending?
      ((s.within guards callee args).running callee args) = some (e, u))
    (hframes : u.frames = strays ++ ((s.within guards callee args).running callee args).frames) :
    ∃ after t, ((machine host (rounds + guards.length + 1)).call (guardedCall guards callee args).1
        (guardedCall guards callee args).2).ending? s = some (after, t) ∧
      t.frames = (strays ++ underway guards callee).drop (guards.length + 1) ++ s.frames ∧
      t.frames.length = s.frames.length + strays.length ∧
      ((strays ++ underway guards callee)[guards.length]? ≠ (underway guards callee).getLast? →
        after = .raised ∧ t.Imbalanced) ∧
      ((strays ++ underway guards callee)[guards.length]? = (underway guards callee).getLast? →
        after = if guards = [] then e else .value) := by
  induction guards generalizing s with
  | nil =>
    have hhere : u.frames = strays ++ callee :: s.frames := hframes
    obtain ⟨after, t, hrun, hleaves⟩ := ending?_call_strays hnative (by omega) hbody hhere
    have hleaves : s.Leaves callee (strays.drop 0) e after t := hleaves
    obtain ⟨hframes, himbalanced, hbalanced⟩ := hleaves.of_line (Nat.zero_le _)
    exact ⟨after, t, hrun, hframes, by simp [hframes, Nat.add_comm], himbalanced, hbalanced⟩
  | cons guard guards ih =>
    let inner := s.guarding guard (guardedCall guards callee args).1 (guardedCall guards callee args).2
    have hroomInner : guards.length < inner.room := by
      simp only [inner, State.guarding, room_withHeld, room_framed, List.length_cons] at hroom ⊢
      omega
    have hguardsInner (g : Ref) (hg : g ∈ guards) : inner.payload g = .native (.builtin .protect) :=
      hguards g (List.mem_cons_of_mem _ hg)
    obtain ⟨after, t, hrun, hleft, -⟩ := ih inner hguardsInner hnative hroomInner hbody hframes
    obtain ⟨after', t', hrun', hleaves⟩ := ending?_guarded_strays (hguards guard List.mem_cons_self)
      (by omega) hrun hleft
    obtain ⟨hframes, himbalanced, hbalanced⟩ := hleaves.of_line (by simp [length_underway])
    rw [underway_cons, ← List.append_assoc, List.getLast?_concat]
    refine ⟨after', t', hrun', hframes, ?_, himbalanced, fun h => ?_⟩
    · simp [hframes, length_underway]
      omega
    · simpa using hbalanced h

/-- A function that leaves a frame behind is called by a guard, which stays under way and raises. -/
theorem strays_remain_guarded :
    let s := { Globals.bare {} .discard {} with
      heap := ⟨#[.singlet "None", .map [], .map [], .native (.builtin .protect), .native (.host "stray"),
        .int 7]⟩ }
    ∃ t, ((machine { native := Probes.native } 2).call ⟨3⟩ [⟨4⟩, ⟨5⟩]).ending? s = some (.raised, t) ∧
      t.Imbalanced ∧ t.frames = [⟨3⟩] := by
  intro s
  obtain ⟨after, t, hrun, hframes, -, himbalanced, -⟩ := strays_remain { native := Probes.native } 0 s
    [⟨3⟩] ⟨4⟩ [⟨5⟩] (.host "stray") [⟨5⟩] .value _ (by simp [s, State.payload, Heap.get]) rfl (by decide)
    rfl rfl
  obtain ⟨rfl, hreported⟩ := himbalanced (by decide)
  exact ⟨t, hrun, hreported, hframes⟩

end ObjectModel
