/-!
# Log

What a build reports while it runs, as events. The least level that is shown depends on how the
program was called.
-/

namespace StaticSite.Log

inductive Level where
  | debug | info | warning | error
deriving DecidableEq, Repr

def Level.name : Level → String
  | .debug => "DEBUG"
  | .info => "INFO"
  | .warning => "WARNING"
  | .error => "ERROR"

inductive Event where
  | extracted (assets : Nat)
  | noLocalFile (url : String)
  | timedOut (path : String)
  | missingComponent (id : String)
  | builtPage (id : String) (components assets : Nat)
  | pageFailed (id cause : String)
  | siteAborted (cause : String)
  | builtSite (pages files : Nat)
  | started (pages : Nat) (mode : String)
  | written (files : Nat) (bytes savings : Int) (components assets : Nat)
deriving DecidableEq, Repr

def Event.level : Event → Level
  | .extracted _ => .debug
  | .noLocalFile _ => .debug
  | .timedOut _ => .warning
  | .missingComponent _ => .warning
  | .builtPage .. => .debug
  | .pageFailed .. => .error
  | .siteAborted _ => .error
  | .builtSite .. => .info
  | .started .. => .info
  | .written .. => .info

def Event.message : Event → String
  | .extracted assets => "Extracted " ++ toString assets ++ " assets"
  | .noLocalFile url => "No local file for " ++ url
  | .timedOut path => "Timed out reading " ++ path ++ "; using original URL"
  | .missingComponent id => "Skipping missing component " ++ id
  | .builtPage id components assets =>
    "Built page " ++ id ++ " (" ++ toString components ++ " components, " ++ toString assets ++
      " assets)"
  | .pageFailed id cause => "Failed to build page " ++ id ++ ": " ++ cause
  | .siteAborted cause => "Site build aborted: " ++ cause
  | .builtSite pages files =>
    "Built " ++ toString pages ++ " pages into " ++ toString files ++ " files"
  | .started pages mode => "Building " ++ toString pages ++ " pages in " ++ mode ++ " mode"
  | .written files bytes savings components assets =>
    "Wrote " ++ toString files ++ " files (" ++ toString bytes ++ " bytes, " ++
      toString savings ++ "% smaller than unminified); " ++ toString components ++
      " components, " ++ toString assets ++ " assets"

end StaticSite.Log
