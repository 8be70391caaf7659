/-!
What is known about the program itself: its version, and the profile from which
its built-in limits were taken.
-/
namespace Lookahead.Build

def version : String := "0.1.0"

def title : String := "ll1 v" ++ version

def profile : String := "development"

def configDirectory : String := "config"

def sourceInfo : String := s!"Generated from {configDirectory}/{profile}.toml"

end Lookahead.Build
