import Peg.Load.FileSystem

/-!
# Bundled grammars

The grammars that come with the library, as files of the bundled directory.
-/

namespace Peg.Bundled

/-- Arithmetic expressions, the bundled sample grammar. -/
def math : String :=
  "/*
 * Arithmetic expressions, the bundled sample grammar.
 */

example Expression '''1+2*3'''
example Expression '''(1+2)*3'''
example Int '''42'''

Expression = Sum

Sum = Product (^\x7b '+' Product #Add \x7d / ^\x7b '-' Product #Sub \x7d)*

Product = Value (^\x7b '*' Value #Mul \x7d / ^\x7b '/' Value #Div \x7d)*

Value = \x7b [0-9]+ #Int \x7d / '(' Sum ')'

Int = \x7b [0-9]+ #Int \x7d
"

/-- The names of the bundled files with their texts. -/
def files : List (String × String) :=
  [("math.tpeg", math)]

/-- The file system with the bundled files in the given directory. -/
def install (fileSystem : FileSystem) (directory : Path) (modified : Int) : FileSystem :=
  files.foldl
    (fun fileSystem (name, text) =>
      fileSystem.write [] (directory.join name) ⟨.bytes text.toUTF8, modified⟩)
    fileSystem

end Peg.Bundled
