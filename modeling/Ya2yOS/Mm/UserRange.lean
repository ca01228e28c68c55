import Ya2yOS.Mm.Uaccess
import Ya2yOS.Mm.VmaLayout

/-!
# The check of a user range

`check_user_range` rounds the first byte of a range down and the last byte, not the end, up to pages. A last byte that
is the first of its page is therefore left out.
-/

namespace Ya2yOS.Mm

open Lib Conv

variable {a : MapArea} {rest areas : List MapArea} {wanted : MapPermission} {current endVpn v : ℕ}

end Ya2yOS.Mm
