import SourceLikeness.Alphabet
import SourceLikeness.Language

/-!
# Tokenizer settings

The dialect, the alphabet and the keywords that name types, in three lists. `Settings.ofDialect`
gives those that hold when nothing is said, `Settings.fault?` the first reason not to use some.
-/

namespace SourceLikeness.Tokenizer
open Text (trim)

/-- What a tokenizer needs to know. -/
structure Settings where
  dialect : Dialect
  alphabet : Alphabet
  intTypes : List String
  charTypes : List String
  floatTypes : List String

namespace Settings

def cIntTypes : List String :=
  ["unsigned long long int", "unsigned long long", "unsigned long int", "unsigned long",
    "unsigned int", "unsigned short int", "unsigned short", "unsigned", "signed long long int",
    "signed long long", "signed long int", "signed long", "signed short int", "signed short",
    "signed int", "signed", "long long int", "long long", "long int", "long", "short int", "short",
    "int"]

def cCharTypes : List String := ["signed char", "unsigned char", "char"]

def cFloatTypes : List String := ["long double", "double", "float"]

/-- The settings of a dialect. Python has no typed declarations and so no type keywords. -/
def ofDialect : Dialect → Settings
  | .cFamily => ⟨.cFamily, .default, cIntTypes, cCharTypes, cFloatTypes⟩
  | .python => ⟨.python, .default, [], [], []⟩

def types (s : Settings) : List String := s.intTypes ++ s.charTypes ++ s.floatTypes

inductive Fault where
  | alphabet (fault : Alphabet.Fault)
  /-- A type keyword holds nothing but blanks. -/
  | emptyKeyword
deriving DecidableEq, Repr

def Fault.message : Fault → String
  | alphabet fault => fault.message
  | emptyKeyword => "empty type keyword"

/-- The first fault of some settings. The alphabet is looked at first. -/
def fault? (s : Settings) : Option Fault :=
  match s.alphabet.fault? with
  | some fault => some (.alphabet fault)
  | none => if s.types.any (fun k => trim k.toList = []) then some .emptyKeyword else none

end Settings
end SourceLikeness.Tokenizer
