import Workbench.Text.Basic

/-! # Toolchains

A usable toolchain: the path of its executable and the directory to run it in.
-/

namespace Workbench

structure Toolchain where
  binary : Text
  root : Option Text
deriving DecidableEq, Inhabited

namespace Toolchain

def command (t : Toolchain) (args : List Text) : List Text := t.binary :: args

def bind (t : Toolchain) (root : Option Text) : Toolchain := { t with root }

def buildArgs : List Text := ["--output-format", "json", "build"]

def initArgs : List Text := ["--output-format", "json", "init"]

def versionArgs : List Text := ["--version"]

end Toolchain

end Workbench
