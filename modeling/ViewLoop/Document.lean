import ViewLoop.Head

/-!
# Documents

What a view returns: a title, a body and the entries of the head.
-/

namespace ViewLoop

structure Document (P : Type) where
  title : String
  head : List HeadEntry := []
  body : Node P

end ViewLoop
