import DependencyAudit.Manifest
import DependencyAudit.Package.Detected

/-!
What an audit finds: packages that are used but not declared, and packages that
are declared but not used.  A types package is used as long as the package it
describes is; one that describes nothing installable is never called unused.
-/

namespace DependencyAudit

/-- What has to be known of an installed types package. -/
structure TypesPackage where
  name : String
  target : String
  nonNpm : Bool
  deriving DecidableEq, Repr

structure Findings where
  detected : List String
  missing : List String
  unused : List String
  deriving DecidableEq, Repr

namespace Findings

def hasAny (findings : Findings) : Bool :=
  !findings.missing.isEmpty || !findings.unused.isEmpty

/-- Neither used by the sources nor by tools. -/
def isIdle (detected : NameSet) (name : String) : Bool :=
  !detected.contains name && !Package.isImplicit name

/-- A types package without use. -/
def isIdleTypes (detected : NameSet) (types : TypesPackage) : Bool :=
  !types.nonNpm && isIdle detected types.target

/-- Compares the detected packages with a manifest.  Development dependencies are
never called unused, apart from types packages. -/
def classify (detected : NameSet) (manifest : Manifest) (types : List TypesPackage) :
    Findings where
  detected := detected.toList
  missing := detected.toList.filter fun name => !manifest.declares name
  unused :=
    (manifest.dependencies.filter fun name =>
        isIdle detected name && !Manifest.isTypesName name) ++
      (types.filter (isIdleTypes detected)).map TypesPackage.name

/-- The manifest that follows all findings: what is unused is no longer declared,
and what is missing is a dependency. -/
def follow (findings : Findings) (manifest : Manifest) : Manifest where
  dependencies :=
    (manifest.dependencies.filter fun name => !findings.unused.contains name) ++
      findings.missing
  devDependencies := manifest.devDependencies.filter fun name => !findings.unused.contains name

end Findings

end DependencyAudit
