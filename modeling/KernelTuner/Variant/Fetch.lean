import KernelTuner.Error

/-!
Contract: how a kernel reaches its operands.

Owns: the three policies and their encoding in profiles.
-/

set_option autoImplicit false

namespace KernelTuner

/-- How a kernel stages its operands. -/
inductive Fetch where
  /-- Tiles are copied to local memory before use. -/
  | staged
  /-- Work items stride over the global range. -/
  | strided
  /-- Each work item owns a contiguous chunk of the global range. -/
  | contiguous
deriving DecidableEq, Repr, Inhabited

namespace Fetch

def all : List Fetch := [staged, strided, contiguous]

/-- Tag by which a caller names the policy. -/
def label : Fetch → String
  | staged => "Local"
  | strided => "GlobalStrided"
  | contiguous => "GlobalContiguous"

def ofLabel? (label : String) : Option Fetch :=
  all.find? (fun policy => policy.label = label)

def display : Fetch → String
  | staged => "local"
  | strided => "global-strided"
  | contiguous => "global-contiguous"

/-- Integer that stands for the policy in a profile. -/
def index : Fetch → Int
  | staged => 0
  | strided => 1
  | contiguous => 2

def ofIndex (index : Int) : Except Error Fetch :=
  match index with
  | 0 => .ok staged
  | 1 => .ok strided
  | 2 => .ok contiguous
  | _ => refuse (.fetchIndex index)

theorem ofIndex_eq_ok_iff {index : Int} {policy : Fetch} :
    ofIndex index = .ok policy ↔ index = policy.index := by
  unfold ofIndex
  constructor
  · intro accepted
    split at accepted <;> simp_all [refuse] <;> subst accepted <;> rfl
  · rintro rfl
    cases policy <;> rfl

end Fetch

end KernelTuner
