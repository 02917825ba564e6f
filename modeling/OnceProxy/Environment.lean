import OnceProxy.Text.Utf8

/-!
# Environments

The named variables of a process, which are written one after the other as `name=value`, each with a
zero byte at its end.
-/

namespace OnceProxy.Environment

/-- The entries of an environment, without the zero bytes that end them. -/
def entries (s : List UInt8) : List (List UInt8) :=
  (s.splitOn 0).filter (! ·.isEmpty)

/-- The name and the value of an entry. The first byte belongs to the name whatever it is. -/
def readEntry? (entry : List UInt8) : Option (String × String) :=
  let name := entry.take 1 ++ (entry.drop 1).takeWhile (· ≠ 61)
  let text (s : List UInt8) : String := String.ofList (Text.Utf8.decodeLossy s)
  if name.length < entry.length then some (text name, text (entry.drop (name.length + 1)))
  else none

/-- Reads the variables of an environment. -/
def ofBytes (s : List UInt8) : List (String × String) :=
  (entries s).filterMap readEntry?

end OnceProxy.Environment
