/-! Reading files by path.

A path is a list of names between slashes. Empty names and single dots mean
nothing; two dots lead to the directory above. A relative path is followed from
the working directory, of whose surroundings nothing is known except that they
are there; an absolute one from the root, which has its standard directories and
the empty device.
-/

set_option autoImplicit false

namespace Lox.CommandLine

inductive FileFault where
  | notFound
  | isDirectory
  | notDirectory
  | nameTooLong
  | nulInPath
  deriving DecidableEq, Repr

structure Disk where
  files : List (List String × List UInt8)
  directories : List (List String)

def Disk.system : Disk where
  files := [(["dev", "null"], [])]
  directories := [["bin"], ["dev"], ["etc"], ["home"], ["lib"], ["opt"], ["proc"], ["root"],
    ["sbin"], ["sys"], ["tmp"], ["usr", "bin"], ["usr", "lib"], ["var", "lib"], ["var", "tmp"]]

namespace Disk

/-- The names of a path that mean something. -/
def components (path : String) : List String :=
  (path.splitOn "/").filter fun name => name ≠ "" && name ≠ "."

def plainPath (path : String) : String :=
  let names := "/".intercalate (components path)
  if path.startsWith "/" then "/" ++ names else if names.isEmpty then "." else names

def isDirectory (disk : Disk) (path : List String) : Bool :=
  path.isPrefixOf [] || disk.directories.any (path.isPrefixOf ·) ||
    disk.files.any fun file => path.length < file.1.length && path.isPrefixOf file.1

def maxName : Nat := 255

def maxPath : Nat := 4095

/-- Follow a path from a directory of which nothing is known. -/
def followOutside : List String → Except FileFault (List UInt8)
  | [] => .error .isDirectory
  | ".." :: rest => followOutside rest
  | name :: _ => .error (if maxName < name.utf8ByteSize then .nameTooLong else .notFound)

/-- Follow a path from a directory of the tree. At the top of the tree, two dots
lead to what `above` follows, or nowhere if the tree is the whole system. -/
def follow (disk : Disk) (above : Option (List String → Except FileFault (List UInt8)))
    (place : List String) : List String → Except FileFault (List UInt8)
  | [] => .error .isDirectory
  | ".." :: rest =>
    if place.isEmpty then
      match above with
      | some leave => leave rest
      | none => follow disk above [] rest
    else follow disk above place.dropLast rest
  | name :: rest =>
    let next := place ++ [name]
    if maxName < name.utf8ByteSize then .error .nameTooLong
    else
      match disk.files.lookup next with
      | some bytes => if rest.isEmpty then .ok bytes else .error .notDirectory
      | none => if disk.isDirectory next then follow disk above next rest else .error .notFound

/-- The length of a path is measured without what means nothing in it. -/
def read (disk : Disk) (path : String) : Except FileFault (List UInt8) :=
  let names := components path
  if path.contains '\x00' then .error .nulInPath
  else if maxPath < (plainPath path).utf8ByteSize then .error .nameTooLong
  else if path.startsWith "/" then system.follow none [] names
  else disk.follow (some followOutside) [] names

end Disk

end Lox.CommandLine
