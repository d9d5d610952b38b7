import Mathlib.Logic.Relation

universe u

namespace TraceFS.Lib

open Relation

variable {α : Type u} {Waits : α → α → Prop} {Can : α → Prop} {a b : α}

end TraceFS.Lib
