import FreeForm.Text.Basic

namespace FreeForm

structure Options where
  inputs : List Text := []
  recursive : Bool := false
  exclude : List Text := []
  extensions : List Text := []
  jobs : Option Nat := none
  config : Option Text := none
  tabWidth : Option Nat := none
  strict : Bool := false
  check : Bool := false
  comments : Bool := false
  silent : Bool := false
  debug : Bool := false
  deriving DecidableEq, Repr, Inhabited

namespace Options

inductive Flag where
  | recursive
  | strict
  | check
  | comments
  | debug
  | silent
  | help
  | version
  deriving DecidableEq, Repr

inductive Parameter where
  | exclude
  | extension
  | jobs
  | config
  | tabWidth
  deriving DecidableEq, Repr

inductive Switch where
  | flag (f : Flag)
  | parameter (p : Parameter)
  deriving DecidableEq, Repr

namespace Switch

def all : List Switch :=
  [.flag .recursive, .parameter .exclude, .parameter .extension, .parameter .jobs,
    .parameter .config, .parameter .tabWidth, .flag .strict, .flag .check, .flag .comments,
    .flag .debug, .flag .silent, .flag .help, .flag .version]

def letter? : Switch → Option Char
  | .flag .recursive => some 'r'
  | .flag .strict | .flag .check | .flag .comments => none
  | .flag .debug => some 'D'
  | .flag .silent => some 'S'
  | .flag .help => some 'h'
  | .flag .version => some 'V'
  | .parameter .exclude => some 'e'
  | .parameter .extension => some 'f'
  | .parameter .jobs => some 'j'
  | .parameter .config => some 'c'
  | .parameter .tabWidth => some 't'

def name : Switch → Text
  | .flag .recursive => "recursive".toList
  | .flag .strict => "strict".toList
  | .flag .check => "check".toList
  | .flag .comments => "comments".toList
  | .flag .debug => "debug".toList
  | .flag .silent => "silent".toList
  | .flag .help => "help".toList
  | .flag .version => "version".toList
  | .parameter .exclude => "exclude".toList
  | .parameter .extension => "fortran".toList
  | .parameter .jobs => "jobs".toList
  | .parameter .config => "config".toList
  | .parameter .tabWidth => "tab-width".toList

def ofLetter? (c : Char) : Option Switch :=
  all.find? fun s ↦ s.letter? = some c

def ofName? (t : Text) : Option Switch :=
  all.find? fun s ↦ s.name = t

theorem ofName?_name (s : Switch) : ofName? s.name = some s := by
  rcases s with f | p
  · cases f <;> decide
  · cases p <;> decide

theorem ofLetter?_eq_some {s : Switch} {c : Char} (h : s.letter? = some c) :
    ofLetter? c = some s := by
  rcases s with f | p
  · cases f <;> simp only [letter?, Option.some.injEq, reduceCtorEq] at h <;> subst h <;> decide
  · cases p <;> simp only [letter?, Option.some.injEq] at h <;> subst h <;> decide

end Switch

end Options

end FreeForm
