/-
The tables that come with the program: the projects and runtimes of one large repository.

`Bundled.text` is the file that holds them. It is written on one line, as an object with a field for
each table.
-/
import ChangeImpact.Tables.Listing
import ChangeImpact.Json.Writer

namespace ChangeImpact.Bundled

/-! ## Names -/

def projects : List String :=
  [".ci", "CIR", "bolt", "clang", "clang-tools-extra", "cross-project-tests", "docs", "flang", "gn", "libclc", "lit", "lld",
   "lldb", "llvm", "mlir", "openmp", "polly"]

def runtimes : List String :=
  ["compiler-rt", "flang-rt", "libc", "libcxx", "libcxxabi", "libunwind"]

/-- the runtimes of the standard library, which are tested together -/
def standardLibrary : List String :=
  ["libcxx", "libcxxabi", "libunwind"]

/-! ## Tables -/

/-- what a project needs to be built -/
def dependencies : NameLists :=
  [("llvm", []),
   ("clang", ["llvm"]),
   ("CIR", ["clang", "mlir"]),
   ("bolt", ["clang", "lld", "llvm"]),
   ("clang-tools-extra", ["clang", "llvm"]),
   ("compiler-rt", ["clang", "lld"]),
   ("libc", ["clang", "lld"]),
   ("openmp", ["clang", "lld"]),
   ("flang", ["llvm", "clang"]),
   ("flang-rt", ["flang"]),
   ("lldb", ["llvm", "clang"]),
   ("libclc", ["llvm", "clang"]),
   ("lld", ["llvm"]),
   ("mlir", ["llvm"]),
   ("polly", ["llvm"])]

/-- what is tested when a project changes -/
def dependents : NameLists :=
  [("llvm", ["bolt", "clang", "clang-tools-extra", "lld", "lldb", "mlir", "polly", "flang"]),
   ("lld", ["bolt", "cross-project-tests"]),
   ("clang", ["clang-tools-extra", "cross-project-tests", "lldb"]),
   ("mlir", ["flang"]),
   (".ci", ["llvm", "clang", "CIR", "lld", "lldb", "bolt", "clang-tools-extra", "mlir", "polly", "flang", "libclc",
     "openmp"])]

/-- runtimes that are built for a project and not tested -/
def runtimesBuilt : NameLists :=
  [("lldb", standardLibrary)]

def runtimesTested : NameLists :=
  [("clang", ["compiler-rt"]),
   ("clang-tools-extra", ["libc"]),
   ("libc", ["libc"]),
   ("compiler-rt", ["compiler-rt"]),
   ("flang", ["flang-rt"]),
   ("flang-rt", ["flang-rt"]),
   (".ci", ["compiler-rt", "libc", "flang-rt"])]

/-- runtimes that are tested in a build of their own -/
def runtimesReconfigured : NameLists :=
  [("llvm", standardLibrary),
   ("clang", standardLibrary),
   (".ci", standardLibrary)]

def checkTargets : Fields String :=
  [("CIR", "check-clang-cir"),
   ("bolt", "check-bolt"),
   ("clang", "check-clang"),
   ("clang-tools-extra", "check-clang-tools"),
   ("compiler-rt", "check-compiler-rt"),
   ("cross-project-tests", "check-cross-project"),
   ("flang", "check-flang"),
   ("flang-rt", "check-flang-rt"),
   ("libc", "check-libc"),
   ("libcxx", "check-cxx"),
   ("libcxxabi", "check-cxxabi"),
   ("libunwind", "check-unwind"),
   ("lit", "check-lit"),
   ("lld", "check-lld"),
   ("lldb", "check-lldb"),
   ("llvm", "check-llvm"),
   ("mlir", "check-mlir"),
   ("openmp", "check-openmp"),
   ("polly", "check-polly")]

def excluded : PerPlatform (List String) where
  linux := ["cross-project-tests", "openmp"]
  windows := ["cross-project-tests", "openmp", "libc", "lldb", "bolt", "libcxx", "libcxxabi", "libunwind", "flang-rt"]
  darwin :=
    ["bolt", "compiler-rt", "cross-project-tests", "flang", "flang-rt", "libc", "lldb", "openmp", "polly", "libcxx",
     "libcxxabi", "libunwind"]

/-- what is tested when it changes itself and not when something it depends on does -/
def excludedDependents : PerPlatform (List String) where
  linux := []
  windows := ["flang"]
  darwin := []

/-- the paths that belong to another project than the directory at their top -/
def rules : List Rule :=
  [⟨["clang", "lib", "CIR"], "CIR"⟩,
   ⟨["clang", "test", "CIR"], "CIR"⟩,
   ⟨["clang", "include", "clang", "CIR"], "CIR"⟩,
   ⟨["*", "docs"], "docs"⟩,
   ⟨["llvm", "utils", "gn"], "gn"⟩,
   ⟨[".github", "workflows", "premerge.yaml"], ".ci"⟩,
   ⟨["third-party"], ".ci"⟩,
   ⟨["llvm", "utils", "lit"], "lit"⟩]

def tables : Tables where
  projects
  runtimes
  dependencies
  dependents
  runtimesBuilt
  runtimesTested
  runtimesReconfigured
  checkTargets
  excluded
  excludedDependents
  rules
  skipped := ["docs", "gn"]
  unlisted := ["CIR", "lit"]
  sentinel := some "CIR"

def model : Model :=
  .ofTables tables

/-- the file that holds the tables -/
def text : String :=
  String.ofList (Json.write tables.toValue ++ ['\n'])

end ChangeImpact.Bundled
