import ObjectModel.Proofs.Laws.Endings
import ObjectModel.Proofs.Rendering.Answers

/-!
# Raised faults

A fault that is raised leaves everything as it was but for the pending error, its message and the calls
that were under way, and the trail, which tells that it was raised.
-/

namespace ObjectModel

open ObjectModel.Action (contains_made_next payload_made_next)

namespace State

/-- The state after a fault was raised that changed nothing else. -/
structure Raised (s : State) (fault : Fault) (t : State) : Prop where
  grown : s.Grown { t with pending := s.pending, trail := s.trail } s.shown
  pending : ∃ error traceback, t.pending = some ⟨error, traceback⟩ ∧
    t.payload error = .string fault.message ∧ t.payload traceback = .list s.frames.toArray ∧
    t.trail = .raised error s.frames :: s.trail

variable {s t u : State} {fault : Fault}

theorem Grown.room {note : Option (Std.TreeSet Nat)} (h : s.Grown t note) : t.room = s.room := by
  rw [h.rest]
  rfl

theorem Grown.limits {note : Option (Std.TreeSet Nat)} (h : s.Grown t note) :
    t.limits = s.limits := by rw [h.rest]

theorem raised_faulting (s : State) (fault : Fault) : s.Raised fault (s.faulting fault) where
  grown := ((Grown.made s (.string fault.message)).thenMade (.list s.frames.toArray))
  pending := by
    have hmessage : (s.made (.string fault.message)).heap.Contains s.heap.next := contains_made_next ..
    refine ⟨s.heap.next, (s.made (.string fault.message)).heap.next, rfl, ?_, ?_, rfl⟩
    · have hkept := Grown.kept (.made _ (.list s.frames.toArray)) _ hmessage
      exact hkept.trans (payload_made_next s _)
    · exact payload_made_next (s.made _) _

theorem Grown.thenRaised (h : s.Grown t s.shown) (h' : t.Raised fault u) : s.Raised fault u where
  grown := by
    have hpending : t.pending = s.pending := by rw [h.rest]
    have htrail : t.trail = s.trail := by rw [h.rest]
    have hgrown := h.thenGrown h'.grown
    rwa [hpending, htrail] at hgrown
  pending := by
    have hframes : t.frames = s.frames := by rw [h.rest]
    have htrail : t.trail = s.trail := by rw [h.rest]
    simpa [hframes, htrail] using h'.pending

theorem Raised.unheld {held : List (List Ref)} (h : (s.withHeld held).Raised fault t) :
    s.Raised fault (t.withHeld s.held) := ⟨h.grown.unheld, h.pending⟩

theorem Grown.undelegated {note} (h : s.deeper.Grown t note) : s.Grown t.shallower note where
  rest := by
    have hdelegations : t.delegations = s.delegations + 1 := by rw [h.rest]; rfl
    unfold shallower
    rw [hdelegations]
    exact congrArg (fun u => { u with delegations := s.delegations }) h.rest
  kept := h.kept
  size := h.size

theorem Raised.undelegated (h : s.deeper.Raised fault t) : s.Raised fault t.shallower where
  grown := Grown.undelegated h.grown
  pending := h.pending

-- ---------------------------------------------------------------------------
-- Memory that is lacking
-- ---------------------------------------------------------------------------

/-- A block of so many bytes did not fit into memory, which raised an error. -/
def LacksMemory (s : State) (length : Nat) (t : State) : Prop :=
  ¬ s.memory.Fits length ∧ s.Raised (.allocation length) t

/-- With no more than so many blocks more in memory, one of so many bytes did not fit. -/
def LacksMemoryAfter (s : State) (blocks length : Nat) (t : State) : Prop :=
  ∃ moved : State, moved.memory.blocks.size ≤ s.memory.blocks.size + blocks ∧ moved.LacksMemory length t

theorem lacksMemory_faulting {length : Nat} (h : ¬ s.memory.Fits length) :
    s.LacksMemory length (s.faulting (.allocation length)) := ⟨h, s.raised_faulting _⟩

theorem LacksMemory.unheld {held : List (List Ref)} {length : Nat}
    (h : (s.withHeld held).LacksMemory length t) : s.LacksMemory length (t.withHeld s.held) :=
  ⟨h.1, h.2.unheld⟩

theorem LacksMemory.after {blocks length : Nat} (h : t.LacksMemory length u)
    (hle : t.memory.blocks.size ≤ s.memory.blocks.size + blocks) : s.LacksMemoryAfter blocks length u :=
  ⟨t, hle, h⟩

theorem LacksMemoryAfter.mono {blocks more length : Nat} (h : t.LacksMemoryAfter blocks length u)
    (hle : t.memory.blocks.size + blocks ≤ s.memory.blocks.size + more) : s.LacksMemoryAfter more length u := by
  obtain ⟨moved, hmoved, hlacks⟩ := h
  exact ⟨moved, Nat.le_trans hmoved hle, hlacks⟩

theorem not_lacksMemoryAfter {blocks length : Nat} (hlength : length ≤ Memory.lane)
    (hleft : s.memory.blocks.size + blocks < Memory.lanes) : ¬ s.LacksMemoryAfter blocks length t := by
  rintro ⟨moved, hmoved, hlacks, -⟩
  exact hlacks ⟨hlength, fun _ => Nat.lt_of_le_of_lt hmoved hleft⟩

end State

end ObjectModel
