import Librarian.Foundation.Program

/-! # Calls that are programs themselves

Expanding a program puts a program over other calls in the place of each call. A conversation of
the expansion is made of one conversation for each call of the original, in the same order.
-/
namespace Librarian.Foundation.Program
variable {Op Op' : Type} {Ans : Op → Type} {Ans' : Op' → Type} {α : Type}

end Librarian.Foundation.Program
