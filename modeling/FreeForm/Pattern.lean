import FreeForm.Declaration
import FreeForm.Marker
import FreeForm.Sentinel

namespace FreeForm

open Text

structure Span where
  start : Nat
  text : Text
  deriving DecidableEq, Repr

namespace Span

def stop (s : Span) : Nat :=
  s.start + byteLength s.text

end Span

/-- What a form captures: first all of what it matched, then its parts in order of their starts; a part
may be missing. -/
abbrev Captures := List (Option Span)

inductive Pattern where
  | codeEnd
  | directive
  | opener
  | closer
  | preprocessor
  | regionOpener
  | ompDirective
  | conditional
  | sentinel
  | declaration
  deriving DecidableEq, Repr

namespace Pattern

def whole (t : Text) : Captures :=
  [some ⟨0, t⟩, some ⟨0, t⟩]

def codeEndAt (t : Text) : Option Captures :=
  if Marker.startsDirective t then some (whole (t.take 2) ++ [some ⟨0, t.take 2⟩])
  else if Marker.startsPreprocessor t then some (whole (t.take 2) ++ [none])
  else if Marker.startsComment t then some (whole (t.take 1) ++ [none])
  else none

def isOpener (t : Text) : Bool :=
  (Marker.opener? t).isSome

def isCloser : Text → Bool
  | '}' :: c :: _ => Marker.isSigil c
  | _ => false

def search (p : Text → Bool) (offset : Nat) : Text → Option (Nat × Text)
  | [] => none
  | c :: t => if p (c :: t) then some (offset, c :: t) else search p (offset + c.utf8Size) t

def firstPair (p : Text → Bool) (t : Text) : Option Captures :=
  (search p 0 t).map fun (start, u) ↦ [some ⟨start, u.take 2⟩, some ⟨start, u.take 2⟩]

def opensRegion : Text → Bool
  | c :: t => isOpener (c :: t) || c = '\'' || c = '"' || c = '!'
  | [] => false

def firstRegionOpener (t : Text) : Option Captures :=
  (search opensRegion 0 t).map fun (start, u) ↦
    if isOpener u then
      let span : Span := ⟨start, u.take 2⟩
      [some span, some span, some span]
    else
      let span : Span := ⟨start, u.take 1⟩
      [some span, some span, none]

def marked (indent mark gap : Text) : Captures :=
  [some ⟨0, indent ++ mark ++ gap⟩, some ⟨byteLength indent, mark⟩]

def ofSentinel (t : Text) : Option Captures :=
  (Sentinel.cut t).1.map fun s ↦ marked s.indent s.mark s.gap

def conditionalAt (t : Text) : Option Captures :=
  (Sentinel.cut t).1.map fun s ↦ marked s.indent (s.mark.take 2) []

def ompDirectiveAt (t : Text) : Option Captures :=
  (Sentinel.cut t).1.bind fun s ↦
    if s.mark.length = 2 then none else some (marked s.indent s.mark [])

def ofDeclaration (d : Declaration) : Captures :=
  let h := d.head
  let typeStart := h.indent
  let parametersStart := typeStart + byteLength h.typeSpec + h.typeGap
  let attributesStart := parametersStart + byteLength (h.parameters.getD []) + h.parametersGap
  let colonsStart := attributesStart + byteLength h.attributesText + h.attributesGap
  let varsStart := colonsStart + byteLength h.colons
  let line := Declaration.spaces h.indent ++ h.typeSpec ++ Declaration.spaces h.typeGap ++
    h.parameters.getD [] ++ Declaration.spaces h.parametersGap ++ h.attributesText ++
    Declaration.spaces h.attributesGap ++ h.colons ++ d.vars ++ (if d.newline then ['\n'] else [])
  [some ⟨0, line⟩, some ⟨typeStart, h.typeSpec⟩, h.parameters.map (⟨parametersStart, ·⟩),
    d.attributes.map (⟨attributesStart, ·⟩),
    if h.doubleColon then some ⟨colonsStart, h.colons⟩ else none, some ⟨varsStart, d.vars⟩]

def captures : Pattern → Text → Option Captures
  | codeEnd, t => codeEndAt t
  | directive, t => if Marker.startsDirective t then some (whole (t.take 2)) else none
  | opener, t => firstPair isOpener t
  | closer, t => firstPair isCloser t
  | preprocessor, t => if Marker.startsPreprocessor t then some [some ⟨0, t.take 2⟩] else none
  | regionOpener, t => firstRegionOpener t
  | ompDirective, t => ompDirectiveAt t
  | conditional, t => conditionalAt t
  | sentinel, t => ofSentinel t
  | declaration, t => (Declaration.ofText? t).map ofDeclaration

end Pattern

end FreeForm
