import Flycatcher.Library.TextStreams

namespace Library.YamlNodes

open Library.TextStreams

inductive NodeType
  | undefined
  | null
  | scalar
  | sequence
  | map
deriving DecidableEq

structure Position (ν : Type) where
  element : ν
  first : ν
  second : ν

/-- What a program does with the nodes of a library: Type, the conversion to bool,
as<std::string>, operator[], and the loop from begin to end. There is no value in
place of an exception. -/
structure Nodes (ν : Type) where
  type : ν → Option NodeType
  isDefined : ν → Bool
  asText : ν → Option Str
  subscript : ν → Str → Option ν
  iterate : ν → List (Position ν)

section Reading

variable {ν : Type} (yaml : Nodes ν)

def Readable (node : ν) : Prop := (yaml.asText node).isSome

def textOf (node : ν) : Str := (yaml.asText node).getD []

def typeAt (node : ν) (key : Str) : Option NodeType := (yaml.subscript node key).bind yaml.type

def hasAt (node : ν) (key : Str) : Bool := (yaml.subscript node key).any yaml.isDefined

def textAt (node : ν) (key : Str) : Option Str := (yaml.subscript node key).bind yaml.asText

def itemsAt (node : ν) (key : Str) : List (Position ν) :=
  ((yaml.subscript node key).map yaml.iterate).getD []

end Reading

inductive Document
  | null
  | scalar (text : Str)
  | sequence (items : List Document)
  | map (pairs : List (Document × Document))

def isKey (key : Str) : Document → Bool
  | .scalar text => text = key
  | _ => false

def find (key : Str) (pairs : List (Document × Document)) : Option Document :=
  (pairs.find? fun pair => isKey key pair.1).map Prod.snd

def documents : Nodes (Option Document) where
  type
    | none => some .undefined
    | some .null => some .null
    | some (.scalar _) => some .scalar
    | some (.sequence _) => some .sequence
    | some (.map _) => some .map
  isDefined := Option.isSome
  asText
    | some .null => some ['n', 'u', 'l', 'l']
    | some (.scalar text) => some text
    | _ => none
  subscript
    | some (.map pairs), key => some (find key pairs)
    | some .null, _ | some (.sequence _), _ => some none
    | _, _ => none
  iterate
    | some (.sequence items) => items.map fun item => ⟨some item, none, none⟩
    | some (.map pairs) => pairs.map fun pair => ⟨none, some pair.1, some pair.2⟩
    | _ => []

end Library.YamlNodes
