/-!
# The text of a set of flags

A set of flags is a word.  Its text names the flags that are set, in order, and writes what is
left of the word in hexadecimal; a word without any bit is written as zero.
-/

namespace RetainedScene.Text

def hexadecimal (n : Nat) : String := "0x" ++ String.ofList (Nat.toDigits 16 n)

/-- The named flags, single bits each, that the word has set. -/
def namesSet (named : List (UInt32 × String)) (bits : UInt32) : List String :=
  named.filterMap fun (flag, name) => if bits &&& flag = 0 then none else some name

/-- The bits of the word without a name. -/
def unnamed (named : List (UInt32 × String)) (bits : UInt32) : UInt32 :=
  named.foldl (fun rest (flag, _) => rest &&& ~~~flag) bits

def flags (kind : String) (named : List (UInt32 × String)) (bits : UInt32) : String :=
  let rest := unnamed named bits
  let tail := if rest = 0 then [] else [hexadecimal rest.toNat]
  let words := if bits = 0 then ["0x0"] else namesSet named bits ++ tail
  kind ++ "(" ++ " | ".intercalate words ++ ")"

end RetainedScene.Text
