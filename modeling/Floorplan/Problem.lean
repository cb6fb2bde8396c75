import Floorplan.Color
import Floorplan.Script.Words

/-!
# Floorplan.Problem

What can be wrong with the scripts of a level. None of it stops a conversion: the statement or the
entity is skipped and the problem is kept.
-/

namespace Floorplan

inductive ShapeKind where
  | rectangle
  | arc
  deriving DecidableEq

def ShapeKind.text : ShapeKind → String
  | rectangle => "rectangle"
  | arc => "arc"

/-- A script that does not say anything that can be done. -/
inductive SyntaxFault where
  | unclosedQuote (quote : Words.UnclosedQuote)
  | noValue (key : String)
  | invalidValue (key value : String)
  | notFlag (key value : String)
  | notColor (key : String) (cause : Color.ParseError)
  | unknownSetting (key : String)
  | unknownAdjustment (key : String)
  | unknownKind (kind : String)
  | unknownField (kind key : String)
  | outsideBlock (keyword : String)
  | untypedObject
  | openObject (kind : String)
  | openAdjust
  deriving DecidableEq

def SyntaxFault.message : SyntaxFault → String
  | unclosedQuote quote => quote.message
  | noValue key => "`" ++ key ++ "` has no value"
  | invalidValue key value => "`" ++ value ++ "` is not a valid value for `" ++ key ++ "`"
  | notFlag key value => "`" ++ value ++ "` is not a flag, for `" ++ key ++ "`"
  | notColor key cause => "`" ++ key ++ "`: " ++ cause.message
  | unknownSetting key => "unknown setting `" ++ key ++ "`"
  | unknownAdjustment key => "unknown adjustment `" ++ key ++ "`"
  | unknownKind kind => "unknown object type `" ++ kind ++ "`"
  | unknownField kind key => "`" ++ kind ++ "` objects have no `" ++ key ++ "`"
  | outsideBlock keyword => "`" ++ keyword ++ "` outside of a block"
  | untypedObject => "`object` without a type"
  | openObject kind => "`object " ++ kind ++ "` is never closed with `end`"
  | openAdjust => "`adjust` is never closed with `end`"

inductive Problem where
  | malformed (fault : SyntaxFault)
  | missingShape (object : String) (shape : ShapeKind)
  deriving DecidableEq

def Problem.message : Problem → String
  | malformed fault => "script syntax error: " ++ fault.message
  | missingShape object shape =>
    "`" ++ object ++ "` object has no " ++ shape.text ++ " drawn before it, skipping"

end Floorplan
