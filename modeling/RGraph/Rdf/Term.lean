import RGraph.Graph.Record

/-!
# RDF terms and their bytes (`rdf/term.rs`)
-/

namespace RGraph.Rdf

open RGraph.Lib RGraph.Graph

/-- A literal; its language may be missing. -/
structure RdfLiteral where
  lexical : String
  datatype : String
  language : Option String
  deriving DecidableEq, Repr

/-- A term in any place of a triple. -/
inductive Term where
  | iri (s : String)
  | blankNode (s : String)
  | literal (lit : RdfLiteral)
  deriving DecidableEq, Repr

/-- A length as `u16`, and the bytes. -/
def lengthPrefixed (bs : Bytes) : Bytes := natToBE 2 bs.length ++ bs

/-- A length, and what comes after it. -/
def readU16 (bs : Bytes) : Option (Nat × Bytes) :=
  if bs.length < 2 then none else some (beToNat (bs.take 2), bs.drop 2)

/-- A string, and what comes after it. -/
def readStr (bs : Bytes) (len : Nat) : Option (String × Bytes) :=
  if bs.length < len then none
  else (nameFromUtf8 (bs.take len)).map (·, bs.drop len)

namespace Term

def encode : Term → Bytes
  | blankNode label => 0x01 :: nameBytes label
  | iri s => 0x02 :: nameBytes s
  | literal lit =>
    0x03 :: (lengthPrefixed (nameBytes lit.datatype) ++
      (lengthPrefixed (nameBytes (lit.language.getD "")) ++ nameBytes lit.lexical))

/-- An empty language is none. -/
def decode : Bytes → Option Term
  | [] => none
  | tag :: rest =>
    if tag = 0x01 then (nameFromUtf8 rest).map blankNode
    else if tag = 0x02 then (nameFromUtf8 rest).map iri
    else if tag = 0x03 then do
      let (dtLen, rest) ← readU16 rest
      let (datatype, rest) ← readStr rest dtLen
      let (langLen, rest) ← readU16 rest
      let (lang, rest) ← readStr rest langLen
      let lexical ← nameFromUtf8 rest
      some (literal ⟨lexical, datatype, if lang = "" then none else some lang⟩)
    else none

end Term

end RGraph.Rdf
