import RegisterMachine.Proofs.Frame.Places

/-!
# What an instruction names

The registers an instruction reads, those it writes, and the offsets the worker can be at after it,
read off the instruction alone. The machine is not mentioned: that executing an instruction keeps to
what it names is proved about `Frame.exec` and `Environment.step` later.
-/

namespace RegisterMachine

namespace Instruction

/-- The registers whose contents matter. -/
@[simp] def sources : Instruction → List Place
  | .move src _ => [src.place]
  | .intOp _ lhs rhs _ => [lhs.place, rhs.place]
  | .floatOp _ lhs rhs _ => [lhs.place, rhs.place]
  | .intCompare _ lhs rhs _ => [lhs.place, rhs.place]
  | .floatLess lhs rhs _ => [lhs.place, rhs.place]
  | .strEqual lhs rhs _ => [lhs.place, rhs.place]
  | .concat lhs rhs _ => [lhs.place, rhs.place]
  | .not src _ => [src.place]
  | .branch _ cond _ => [cond.place]
  | .newArray _ (some size) _ => [size.place]
  | .arrayLoad array index _ => [array.place, index.place]
  | .arrayStore array index src => [array.place, index.place, src.place]
  | .length src _ => [src.place]
  | .mapStore map key src => [map.place, key.place, src.place]
  | .mapLoad map key _ => [map.place, key.place]
  | .fieldStore record _ src => [record.place, src.place]
  | .fieldLoad record _ _ => [record.place]
  | .newRange first last _ => [first.place, last.place]
  | .iterNew collection _ => [collection.place]
  | .iterHasNext iter _ => [iter.place]
  | .iterNext iter _ => [iter.place]
  | .newError message _ => [message.place]
  | .throw error => [error.place]
  | .call _ args _ => args.map AnyReg.place
  | .nativeCall _ args _ => args.map AnyReg.place
  | .ret values => values.map AnyReg.place
  | _ => []

/-- The registers that are given something; those of a call when it returns. An iterator is moved by
taking from it. -/
@[simp] def destinations : Instruction → List Place
  | .intConst dst _ => [dst.place]
  | .floatConst dst _ => [dst.place]
  | .boolConst dst _ => [dst.place]
  | .strConst dst _ => [dst.place]
  | .null dst => [dst.place]
  | .move _ dst => [dst.place]
  | .intOp _ _ _ dst => [dst.place]
  | .floatOp _ _ _ dst => [dst.place]
  | .intCompare _ _ _ dst => [dst.place]
  | .floatLess _ _ dst => [dst.place]
  | .strEqual _ _ dst => [dst.place]
  | .concat _ _ dst => [dst.place]
  | .not _ dst => [dst.place]
  | .newArray _ _ dst => [dst.place]
  | .arrayLoad _ _ dst => [dst.place]
  | .length _ dst => [dst.place]
  | .newMap dst => [dst.place]
  | .mapLoad _ _ dst => [dst.place]
  | .newRecord _ dst => [dst.place]
  | .fieldLoad _ _ dst => [dst.place]
  | .newRange _ _ dst => [dst.place]
  | .iterNew _ iter => [iter.place]
  | .iterHasNext _ dst => [dst.place]
  | .iterNext iter dsts => iter.place :: dsts.map AnyReg.place
  | .newError _ dst => [dst.place]
  | .call _ _ rets => rets.map AnyReg.place
  | .nativeCall _ _ rets => rets.map AnyReg.place
  | _ => []

/-- All registers the instruction names. -/
@[simp] def places (i : Instruction) : List Place := i.sources ++ i.destinations

/-- Where the worker's frame can be after the instruction, `next` being the offset that follows it.
A call goes on at `next` when it has returned. -/
@[simp] def targets (next : Nat) : Instruction → List Nat
  | .goto target => [target]
  | .branch _ _ target => [next, target]
  | .throw _ => []
  | .ret _ => []
  | _ => [next]

/-- Whether the frame of the instruction is on top of the stack after it: it is no call and no
return. -/
@[simp] def keepsFrame : Instruction → Bool
  | .call .. => false
  | .ret _ => false
  | _ => true

/-- Whether the instruction works within its frame: it calls nothing, natives included. -/
@[simp] def isLocal : Instruction → Bool
  | .nativeCall .. => false
  | i => i.keepsFrame

theorem keepsFrame_of_isLocal {i : Instruction} (h : i.isLocal = true) : i.keepsFrame = true := by
  cases i with
  | nativeCall name args rets => rfl
  | _ => exact h

end Instruction

end RegisterMachine
