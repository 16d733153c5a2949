import OliCompiler.Proofs.Builder.Invariant

/-!
What the counters of a builder make of some calls. There is room for all of them if the counters reach what
the calls give to any function, and then the builder makes the same module as one that counts without an
end.
-/

namespace OliCompiler.Ir.Builder

variable {ν : Type} [Counter ν] {builder : Builder ν} {calls : List Call}

/-- Whether there is room for some calls, for each of them behind the ones before. -/
def Rooms (builder : Builder ν) : List Call → Prop
  | [] => True
  | call :: calls => builder.Room call ∧ (builder.perform call).Rooms calls

/-- The counters behind a call tell how far the calls behind it go. -/
theorem rooms_of_reaches (reached : ∀ front, front <+: calls →
    Counter.reaches ν (front.foldl Call.registers (Counter.toNat builder.nextReg)) ∧
    Counter.reaches ν (front.foldl Call.blocks (Counter.toNat builder.nextBlock))) :
    builder.Rooms calls := by
  induction calls generalizing builder with
  | nil => trivial
  | cons call calls ih =>
    obtain ⟨registers, blocks⟩ := reached [call] ⟨calls, rfl⟩
    have room : builder.Room call := ⟨registers, blocks⟩
    obtain ⟨nextReg, nextBlock⟩ := counters_perform room
    refine ⟨room, ih fun front inside => ?_⟩
    have rest := reached (call :: front) (List.cons_prefix_cons.mpr ⟨rfl, inside⟩)
    rw [List.foldl_cons, List.foldl_cons, ← nextReg, ← nextBlock] at rest
    exact rest

theorem Call.Counted.rooms (counted : Call.Counted ν calls) (name : String) :
    (empty name : Builder ν).Rooms calls := by
  have zero : Counter.toNat (Counter.ofNat 0 : ν) = 0 := Counter.toNat_zero (counted [] List.nil_prefix).1
  refine rooms_of_reaches fun front inside => ?_
  have reached := counted front inside
  rw [← zero] at reached
  exact reached

/-! ## Counting without an end -/

/-- The builder with natural numbers for its counters. -/
def unbounded (builder : Builder ν) : Builder Nat :=
  { builder with
    nextReg := Counter.toNat builder.nextReg
    nextBlock := Counter.toNat builder.nextBlock }

theorem unbounded_startBlock (builder : Builder ν) (id : BlockId) :
    (builder.startBlock id).unbounded = builder.unbounded.startBlock id := by
  have pending : builder.unbounded.pending = builder.pending := rfl
  rw [startBlock, startBlock, pending]
  cases builder.pending.lookup id <;> rfl

/-- A builder that there is room in gives out the numbers that one without an end gives out. -/
theorem unbounded_perform {call : Call} (room : builder.Room call) :
    (builder.perform call).unbounded = builder.unbounded.perform call := by
  cases call with
  | startBlock id => exact unbounded_startBlock builder id
  | startFunction name arity =>
    have few : Counter.reaches ν arity := room.registers
    have one : Counter.reaches ν 1 := room.blocks
    rw [perform, perform, (builder.startFunction_eq name arity).2,
      (builder.unbounded.startFunction_eq name arity).2]
    simp only [unbounded, Counter.map_range few, Counter.toNat_ofNat few, Counter.toNat_zero one,
      Counter.toNat_one one]
    rfl
  | freshReg =>
    exact congrArg (fun nextReg => { builder.unbounded with nextReg }) (Counter.toNat_next room.registers)
  | append id op computes =>
    exact congrArg (fun nextReg => { (builder.unbounded.append id op).2 with nextReg })
      (Counter.toNat_next room.registers)
  | slot ty =>
    exact congrArg (fun nextReg => { (builder.unbounded.slot ty).2 with nextReg })
      (Counter.toNat_next room.registers)
  | freshBlock =>
    exact congrArg (fun nextBlock => { builder.unbounded with nextBlock }) (Counter.toNat_next room.blocks)
  | createBlock hint =>
    exact congrArg (fun nextBlock => { (builder.unbounded.createBlock hint).2 with nextBlock })
      (Counter.toNat_next room.blocks)
  | _ => rfl

theorem unbounded_foldl (rooms : builder.Rooms calls) :
    (calls.foldl perform builder).unbounded = calls.foldl perform builder.unbounded := by
  induction calls generalizing builder with
  | nil => rfl
  | cons call calls ih =>
    obtain ⟨room, rest⟩ := rooms
    rw [List.foldl_cons, List.foldl_cons, ih rest, unbounded_perform room]

/-- As long as its counters do not start again a builder makes the module that is made with counters
without an end. -/
theorem finish_unbounded (counted : Call.Counted ν calls) (name : String) :
    (calls.foldl perform (empty name : Builder ν)).finish =
      (calls.foldl perform (empty name : Builder Nat)).finish := by
  have start : (empty name : Builder ν).unbounded = empty name := by
    rw [unbounded, empty, Counter.toNat_zero (counted [] List.nil_prefix).1]
    rfl
  have same := unbounded_foldl (counted.rooms name)
  rw [start] at same
  exact congrArg finish same

end OliCompiler.Ir.Builder
