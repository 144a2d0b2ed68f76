import ClassLowering.Proofs.Printing.Reach

/-!
# Who writes the terminator

A statement that ends in an expression leaves its terminator to that expression where it is a
statement block, and a statement block writes one where its grandparent is a block. The two rules
agree on a statement that stands directly in a block. Elsewhere they do not: such a statement gets
no terminator, and a statement block that is the condition of a loop in a block writes one.
-/

set_option autoImplicit false

namespace ClassLowering

open Text (concat)

namespace Tree

end Tree

/-! ## Terminators in a whole file -/

namespace Samples

end Samples

end ClassLowering
