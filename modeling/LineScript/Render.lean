import LineScript.Command
import LineScript.Converter
import LineScript.Store

/-!
What a template prints and which block a branch calls, for given values of the variables. Results of
conversions are printed as they are and never scanned for tokens again.
-/

namespace LineScript

/-- A part that is no conversion; a conversion prints as it was written. -/
def Part.renderPlain (store : Store) : Part → Text
  | literal text => text
  | ref name => store.valueOf name
  | conversion _ _ raw => raw

/-- A template without conversions. -/
def Template.renderPlain (store : Store) (t : Template) : Text := t.flatMap (·.renderPlain store)

/-- A conversion whose operator is unknown prints as it was written, with its references resolved. -/
def Part.render (converter : Converter) (store : Store) : Part → Text
  | conversion operator value raw =>
    (converter.convert operator (store.resolve value)).getD
      ((Template.readPlain raw).renderPlain store)
  | part => part.renderPlain store

def Template.render (converter : Converter) (store : Store) (t : Template) : Text :=
  t.flatMap (·.render converter store)

/-- The block that a branch calls, if any. -/
def Branch.target (b : Branch) (store : Store) : Option Text :=
  if b.comparison.holds (store.resolve b.left) (store.resolve b.right) then some b.whenTrue
  else b.whenFalse

end LineScript
